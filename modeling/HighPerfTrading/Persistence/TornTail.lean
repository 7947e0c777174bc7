import HighPerfTrading.Persistence.Recovery
import HighPerfTrading.Library.Slab

/-! Journal files cut short by a crash in the middle of a write. The reader gives up a header or a checksum
that is cut, but not a payload, and new frames are written behind whatever bytes are left. -/
namespace HighPerfTrading

section Torn
variable {postcard : Codec Command} {crc32 : List UInt8 → UInt32} {cmds : List Command}

/-- The commands whose frames lie completely in the first `k` bytes. -/
def completeIn (postcard : Codec Command) (crc32 : List UInt8 → UInt32) : List Command → ℕ → List Command
  | [],_ => []
  | cmd::cmds,k =>
    if (writeFrame postcard crc32 cmd).length ≤ k then
      cmd::completeIn postcard crc32 cmds (k-(writeFrame postcard crc32 cmd).length)
    else []

/-- The first frame that does not lie completely in the first `k` bytes is cut inside its payload. -/
def CutsPayload (postcard : Codec Command) (crc32 : List UInt8 → UInt32) (cmds : List Command) (k : ℕ) : Prop :=
  ∃ cmd post, cmds = completeIn postcard crc32 cmds k ++ cmd::post ∧
    ((completeIn postcard crc32 cmds k).flatMap (writeFrame postcard crc32)).length+4 ≤ k ∧
    k < ((completeIn postcard crc32 cmds k).flatMap (writeFrame postcard crc32)).length+4+(postcard.encode cmd).length

/-- Every frame is complete, or there is a first one that is not. -/
theorem completeIn_cases (postcard : Codec Command) (crc32 : List UInt8 → UInt32) (cmds : List Command) (k : ℕ) :
    (completeIn postcard crc32 cmds k = cmds ∧ (cmds.flatMap (writeFrame postcard crc32)).length ≤ k) ∨
    ∃ cmd post j, cmds = completeIn postcard crc32 cmds k ++ cmd::post ∧ j < (writeFrame postcard crc32 cmd).length ∧
      k = ((completeIn postcard crc32 cmds k).flatMap (writeFrame postcard crc32)).length+j := by
  induction cmds generalizing k with
  | nil => exact Or.inl ⟨rfl,Nat.zero_le _⟩
  | cons cmd cmds ih =>
    unfold completeIn
    by_cases hle : (writeFrame postcard crc32 cmd).length ≤ k
    · rw [if_pos hle,List.flatMap_cons,List.flatMap_cons,List.length_append,List.length_append]
      rcases ih (k-(writeFrame postcard crc32 cmd).length) with ⟨heq,hk⟩ | ⟨torn,post,j,heq,hj,hk⟩
      · exact Or.inl ⟨by rw [heq],by omega⟩
      · refine Or.inr ⟨torn,post,j,?_,hj,by omega⟩
        rw [List.cons_append,← heq]
    · rw [if_neg hle]
      exact Or.inr ⟨cmd,cmds,k,rfl,Nat.lt_of_not_le hle,by simp⟩

theorem completeIn_subset (cmds : List Command) (k : ℕ) : completeIn postcard crc32 cmds k ⊆ cmds := by
  rcases completeIn_cases postcard crc32 cmds k with ⟨heq,-⟩ | ⟨cmd,post,-,heq,-⟩
  · rw [heq]
    exact List.Subset.refl _
  · intro c hc
    rw [heq]
    exact List.mem_append_left _ hc

/-- A cut file is the complete frames and the front of the next one. -/
theorem take_frames {cmd : Command} (pre post : List Command) {j : ℕ} (hj : j < (writeFrame postcard crc32 cmd).length) :
    ((pre ++ cmd::post).flatMap (writeFrame postcard crc32)).take
        ((pre.flatMap (writeFrame postcard crc32)).length+j) =
      pre.flatMap (writeFrame postcard crc32) ++ (writeFrame postcard crc32 cmd).take j := by
  rw [List.flatMap_append,List.flatMap_cons,List.take_length_add_append,List.take_append_of_le_length hj.le]

/-! ### Reading a cut frame -/

/-- A frame is its header, its payload and its checksum. -/
theorem writeFrame_eq (cmd : Command) : writeFrame postcard crc32 cmd =
    Wire.le32.write (UInt32.ofNat (postcard.encode cmd).length) ++
      (postcard.encode cmd ++ Wire.le32.write (crc32 (postcard.encode cmd))) := by
  simp [writeFrame]

theorem length_frame (cmd : Command) :
    (writeFrame postcard crc32 cmd).length = 8+(postcard.encode cmd).length := by
  simp only [writeFrame,List.length_append,Wire.length_le32]
  omega

/-- A frame that is cut ends the file, unless its payload is cut. -/
theorem readFrames_torn {cmd : Command} (hfit : Fits postcard cmd) {j : ℕ}
    (hj : j < (writeFrame postcard crc32 cmd).length) (fuel offset : ℕ) :
    readFrames postcard crc32 (fuel+1) offset ((writeFrame postcard crc32 cmd).take j) =
      if 4 ≤ j ∧ j < 4+(postcard.encode cmd).length then .error .unexpectedEof else .ok [] := by
  rw [length_frame] at hj
  have hbytes : writeFrame postcard crc32 cmd = Wire.le32.write (UInt32.ofNat (postcard.encode cmd).length) ++
      (postcard.encode cmd ++ (Wire.le32.write (crc32 (postcard.encode cmd)) ++ [])) := by
    rw [List.append_nil,writeFrame_eq]
  rw [readFrames,hbytes,Wire.le32_take]
  by_cases h4 : 4 ≤ j
  · rw [if_pos h4]
    simp only [hfit.toNat_length,if_neg (Nat.not_lt.mpr hfit),readExact_take]
    by_cases hp : (postcard.encode cmd).length ≤ j-4
    · simp only [if_pos hp,Wire.le32_take,if_neg (show ¬ 4 ≤ j-4-(postcard.encode cmd).length by omega)]
      rw [if_neg (by omega)]
    · simp only [if_neg hp]
      rw [if_pos (by omega)]
  · simp only [if_neg h4]
    rw [if_neg (by omega)]

theorem readAll_torn {pre : List Command} (hpre : ∀ c ∈ pre, Fits postcard c) {cmd : Command}
    (hfit : Fits postcard cmd) {j : ℕ} (hj : j < (writeFrame postcard crc32 cmd).length) :
    readAll postcard crc32 (pre.flatMap (writeFrame postcard crc32) ++ (writeFrame postcard crc32 cmd).take j) =
      if 4 ≤ j ∧ j < 4+(postcard.encode cmd).length then .error .unexpectedEof else .ok pre := by
  obtain ⟨fuel,next,hfuel,hread⟩ := readAll_append crc32 hpre ((writeFrame postcard crc32 cmd).take j)
  obtain ⟨fuel,rfl⟩ := Nat.exists_eq_add_of_le' hfuel
  rw [hread,readFrames_torn hfit hj]
  split_ifs
  · rfl
  · exact congrArg Except.ok (List.append_nil _)

/-- A cut file is one that is whole, or one whose last frame is cut. -/
theorem take_cases (crc32 : List UInt8 → UInt32) (h : ∀ cmd ∈ cmds, Fits postcard cmd) (k : ℕ) :
    (completeIn postcard crc32 cmds k = cmds ∧
      (cmds.flatMap (writeFrame postcard crc32)).take k = cmds.flatMap (writeFrame postcard crc32)) ∨
    ∃ cmd j, Fits postcard cmd ∧ j < (writeFrame postcard crc32 cmd).length ∧
      (cmds.flatMap (writeFrame postcard crc32)).take k =
        (completeIn postcard crc32 cmds k).flatMap (writeFrame postcard crc32) ++ (writeFrame postcard crc32 cmd).take j ∧
      (CutsPayload postcard crc32 cmds k ↔ 4 ≤ j ∧ j < 4+(postcard.encode cmd).length) := by
  rcases completeIn_cases postcard crc32 cmds k with ⟨heq,hk⟩ | ⟨cmd,post,j,heq,hj,hk⟩
  · exact Or.inl ⟨heq,List.take_of_length_le hk⟩
  · refine Or.inr ⟨cmd,j,h cmd (by rw [heq]; simp),hj,?_,?_⟩
    · have htake := take_frames (completeIn postcard crc32 cmds k) post hj
      rwa [← heq,← hk] at htake
    · constructor
      · rintro ⟨cmd',post',heq',hle,hlt⟩
        have hsame := List.append_cancel_left (heq.symm.trans heq')
        obtain ⟨rfl,rfl⟩ := List.cons.inj hsame
        omega
      · rintro ⟨hle,hlt⟩
        exact ⟨cmd,post,heq,by omega,by omega⟩

/-- A journal cut at any byte reads back as its complete frames exactly when no payload is cut. -/
theorem readAll_take_iff (h : ∀ cmd ∈ cmds, Fits postcard cmd) (k : ℕ) :
    readAll postcard crc32 ((cmds.flatMap (writeFrame postcard crc32)).take k) =
      .ok (completeIn postcard crc32 cmds k) ↔ ¬ CutsPayload postcard crc32 cmds k := by
  have hpre : ∀ c ∈ completeIn postcard crc32 cmds k, Fits postcard c := fun c hc => h c (completeIn_subset cmds k hc)
  rcases take_cases crc32 h k with ⟨heq,htake⟩ | ⟨cmd,j,hfit,hj,htake,hcut⟩
  · rw [htake,heq,readAll_frames h]
    refine iff_of_true rfl ?_
    rintro ⟨cmd,post,hcons,-⟩
    rw [heq,List.self_eq_append_right] at hcons
    cases hcons
  · rw [htake,readAll_torn hpre hfit hj,hcut]
    split_ifs with hpayload
    · exact iff_of_false (by rintro ⟨⟩) (not_not.mpr hpayload)
    · exact iff_of_true rfl hpayload

/-- The second frame is cut inside its checksum. -/
theorem readAll_take_checksum :
    readAll Postcard.standard.command Crc32.hash (([.cancel ⟨1,7,1,1⟩,.cancel ⟨2,8,1,1⟩].flatMap
        (writeFrame Postcard.standard.command Crc32.hash)).take 24) =
      .ok (completeIn Postcard.standard.command Crc32.hash [.cancel ⟨1,7,1,1⟩,.cancel ⟨2,8,1,1⟩] 24) :=
  (readAll_take_iff (by decide +kernel) 24).mpr fun ⟨cmd,post,heq,hle,hlt⟩ => by
    have hcomplete : completeIn Postcard.standard.command Crc32.hash [.cancel ⟨1,7,1,1⟩,.cancel ⟨2,8,1,1⟩] 24 =
        [.cancel ⟨1,7,1,1⟩] := by decide +kernel
    rw [hcomplete] at heq hlt
    obtain ⟨rfl,rfl⟩ := List.cons.inj (List.cons.inj heq).2
    revert hlt
    decide +kernel

/-- Two bytes of a payload are an error, not the end of the journal. -/
theorem payload_cut_fails :
    readAll Postcard.standard.command Crc32.hash (([.cancel ⟨1,7,1,1⟩].flatMap
        (writeFrame Postcard.standard.command Crc32.hash)).take 6) = .error .unexpectedEof ∧
      completeIn Postcard.standard.command Crc32.hash [.cancel ⟨1,7,1,1⟩] 6 = [] := by
  decide +kernel

/-! ### Writing behind a cut frame -/

/-- The payload is there and its length fits in one byte. -/
def Short (postcard : Codec Command) (cmd : Command) : Prop :=
  0 < (postcard.encode cmd).length ∧ (postcard.encode cmd).length < 256

instance (postcard : Codec Command) (cmd : Command) : Decidable (Short postcard cmd) :=
  inferInstanceAs (Decidable (_ ∧ _))

theorem Short.fits {cmd : Command} (h : Short postcard cmd) : Fits postcard cmd :=
  h.2.le.trans (by decide)

/-- A header cut after `j` bytes takes the new frame's length for its high bytes, which asks for far more
than the file has. -/
theorem readFrames_header_torn (crc32 : List UInt8 → UInt32) {front : List UInt8} (h0 : 0 < front.length)
    (h4 : front.length < 4) {cmd : Command} (hs : Short postcard cmd) (fuel offset : ℕ) :
    ∃ err, readFrames postcard crc32 (fuel+1) offset (front ++ writeFrame postcard crc32 cmd) = .error err := by
  have hpos : 0 < 256^front.length := Nat.pow_pos (by decide)
  obtain ⟨low,hlow,hread⟩ := Wire.readLe_front front (4-front.length)
  have hfour : front.length+(4-front.length) = 4 := by omega
  have hwrite : Wire.le32.write (UInt32.ofNat (postcard.encode cmd).length) =
      Wire.writeLe (4-front.length+front.length) (postcard.encode cmd).length := by
    change Wire.writeLe 4 _ = _
    rw [hs.fits.toNat_length,Nat.sub_add_cancel h4.le]
  have hmod : (postcard.encode cmd).length%256^(4-front.length) = (postcard.encode cmd).length :=
    Nat.mod_eq_of_lt (hs.2.trans_le (Nat.le_self_pow (by omega) 256))
  -- the header that is read, and what follows it
  have hhdr : Wire.le32.read (front ++ writeFrame postcard crc32 cmd) =
      some (UInt32.ofNat (low+256^front.length*(postcard.encode cmd).length),
        Wire.writeLe front.length ((postcard.encode cmd).length/256^(4-front.length)) ++
          (postcard.encode cmd ++ Wire.le32.write (crc32 (postcard.encode cmd)))) := by
    rw [hfour] at hread
    change (Wire.readLe 4 _).map _ = _
    rw [hread,writeFrame_eq,hwrite,Wire.readLe_low,hmod]
    rfl
  have hpow : 256^(front.length+1) ≤ 256^4 := Nat.pow_le_pow_right (by decide) (by omega)
  have hbig : low+256^front.length*(postcard.encode cmd).length < 256^(front.length+1) := by
    have hmul : 256^front.length*((postcard.encode cmd).length+1) ≤ 256^front.length*256 :=
      Nat.mul_le_mul_left _ hs.2
    rw [Nat.mul_add,Nat.mul_one,← Nat.pow_succ] at hmul
    omega
  have hval : (UInt32.ofNat (low+256^front.length*(postcard.encode cmd).length)).toNat =
      low+256^front.length*(postcard.encode cmd).length := by
    rw [UInt32.toNat_ofNat',Nat.mod_eq_of_lt]
    exact hbig.trans_le hpow
  simp only [readFrames,hhdr,hval]
  split_ifs with hmax
  · exact ⟨_,rfl⟩
  · have hshort : (Wire.writeLe front.length ((postcard.encode cmd).length/256^(4-front.length)) ++
        (postcard.encode cmd ++ Wire.le32.write (crc32 (postcard.encode cmd)))).length <
        low+256^front.length*(postcard.encode cmd).length := by
      have h256 : 256 ≤ 256^front.length := Nat.le_self_pow (by omega) 256
      have hmul := Nat.mul_le_mul_right (postcard.encode cmd).length h256
      have h1 := hs.1
      simp only [List.length_append,Wire.length_writeLe,Wire.length_le32]
      omega
    rw [readExact_short hshort]
    exact ⟨_,rfl⟩

/-- A new command behind a cut frame is not read back. -/
theorem torn_loses (crc32 : List UInt8 → UInt32) {torn cmd : Command} (hfit : Fits postcard torn)
    (hs : Short postcard cmd) (hne : cmd ≠ torn) {j : ℕ} (h0 : 0 < j) (hj : j < (writeFrame postcard crc32 torn).length)
    (hcut : ¬ (4 ≤ j ∧ j < 4+(postcard.encode torn).length)) (fuel offset : ℕ) :
    readFrames postcard crc32 (fuel+1) offset
      ((writeFrame postcard crc32 torn).take j ++ writeFrame postcard crc32 cmd) ≠ .ok [cmd] := by
  have hlen : ((writeFrame postcard crc32 torn).take j).length = j := by rw [List.length_take]; omega
  by_cases hheader : j < 4
  · obtain ⟨err,herr⟩ := readFrames_header_torn crc32 (hlen.symm ▸ h0) (hlen.symm ▸ hheader) hs fuel offset
    rw [herr]
    rintro ⟨⟩
  · -- the cut frame is whole up to its checksum, whose rest comes from the new header
    have htake : (writeFrame postcard crc32 torn).take j =
        Wire.le32.write (UInt32.ofNat (postcard.encode torn).length) ++ (postcard.encode torn ++
          (Wire.le32.write (crc32 (postcard.encode torn))).take (j-4-(postcard.encode torn).length)) := by
      rw [writeFrame_eq,List.take_append,Wire.length_le32,List.take_of_length_le (by rw [Wire.length_le32]; omega),
        List.take_append,List.take_of_length_le (by omega)]
    rw [htake,List.append_assoc,List.append_assoc]
    simp only [readFrames,Wire.read_write,hfit.toNat_length,if_neg (Nat.not_lt.mpr hfit),readExact_append,
      Codec.decode_encode]
    cases Wire.le32.read ((Wire.le32.write (crc32 (postcard.encode torn))).take (j-4-(postcard.encode torn).length) ++
      writeFrame postcard crc32 cmd) with
    | none => rintro ⟨⟩
    | some r =>
      simp only
      split_ifs with hcrc
      · rintro ⟨⟩
      · cases readFrames postcard crc32 fuel (offset+4+(postcard.encode torn).length+4) r.2 with
        | error err => rintro ⟨⟩
        | ok rest =>
          intro heq
          exact hne (List.cons.inj (Except.ok.inj heq)).1.symm

/-- Of two short commands one is not read back behind a cut frame. -/
theorem torn_loses_one (crc32 : List UInt8 → UInt32) {front : List Command} {torn : Command}
    (hsmall : ∃ a b : Command, a ≠ b ∧ Short postcard a ∧ Short postcard b) (hfront : ∀ c ∈ front, Fits postcard c)
    (hfit : Fits postcard torn) {j : ℕ} (h0 : 0 < j) (hj : j < (writeFrame postcard crc32 torn).length)
    (hcut : ¬ (4 ≤ j ∧ j < 4+(postcard.encode torn).length)) :
    ∃ cmd, Short postcard cmd ∧ readAll postcard crc32 (front.flatMap (writeFrame postcard crc32) ++
      ((writeFrame postcard crc32 torn).take j ++ writeFrame postcard crc32 cmd)) ≠ .ok (front ++ [cmd]) := by
  obtain ⟨cmd,hne,hs⟩ : ∃ cmd, cmd ≠ torn ∧ Short postcard cmd := by
    obtain ⟨a,b,hab,ha,hb⟩ := hsmall
    by_cases hat : a = torn
    · exact ⟨b,fun hbt => hab (hat.trans hbt.symm),hb⟩
    · exact ⟨a,hat,ha⟩
  refine ⟨cmd,hs,fun hread => ?_⟩
  obtain ⟨fuel,next,hfuel,happ⟩ := readAll_append crc32 hfront
    ((writeFrame postcard crc32 torn).take j ++ writeFrame postcard crc32 cmd)
  obtain ⟨fuel,rfl⟩ := Nat.exists_eq_add_of_le' hfuel
  rw [happ] at hread
  have hlost := torn_loses crc32 hfit hs hne h0 hj hcut fuel next
  cases hfr : readFrames postcard crc32 (fuel+1) next
      ((writeFrame postcard crc32 torn).take j ++ writeFrame postcard crc32 cmd) with
  | error err => rw [hfr] at hread; cases hread
  | ok rest =>
    rw [hfr] at hread hlost
    exact absurd (congrArg Except.ok (List.append_cancel_left (Except.ok.inj hread))) hlost

namespace Journal

/-- Commands appended one after the other; each may come after the sync interval. -/
def appendAll (postcard : Codec Command) (crc32 : List UInt8 → UInt32) (j : Journal) (es : List (Command × Bool)) :
    Journal :=
  es.foldl (fun j e => j.append postcard crc32 e.1 e.2) j

theorem file_append (j : Journal) (cmd : Command) (elapsed : Bool) :
    (j.append postcard crc32 cmd elapsed).file ++
        (j.append postcard crc32 cmd elapsed).batchBuffer.flatMap (writeFrame postcard crc32) =
      j.file ++ (j.batchBuffer ++ [cmd]).flatMap (writeFrame postcard crc32) := by
  simp only [append]
  split_ifs
  · simp [flush]
  · rfl

/-- After a flush the file has every command appended. -/
theorem file_flush_appendAll (j : Journal) (es : List (Command × Bool)) :
    ((j.appendAll postcard crc32 es).flush postcard crc32).file =
      j.file ++ (j.batchBuffer ++ es.map Prod.fst).flatMap (writeFrame postcard crc32) := by
  induction es generalizing j with
  | nil =>
    rw [List.map_nil,List.append_nil]
    rfl
  | cons e es ih =>
    change (((j.append postcard crc32 e.1 e.2).appendAll postcard crc32 es).flush postcard crc32).file = _
    rw [ih,List.flatMap_append,← List.append_assoc,file_append]
    simp [List.append_assoc]

end Journal

/-- What is read from a cut journal is its complete frames. -/
theorem readAll_take_ok (h : ∀ cmd ∈ cmds, Fits postcard cmd) {k : ℕ} {recovered : List Command}
    (hread : readAll postcard crc32 ((cmds.flatMap (writeFrame postcard crc32)).take k) = .ok recovered) :
    recovered = completeIn postcard crc32 cmds k := by
  have hpre : ∀ c ∈ completeIn postcard crc32 cmds k, Fits postcard c := fun c hc => h c (completeIn_subset cmds k hc)
  rcases take_cases crc32 h k with ⟨heq,htake⟩ | ⟨cmd,j,hfit,hj,htake,-⟩
  · rw [htake,readAll_frames h] at hread
    rw [heq]
    exact (Except.ok.inj hread).symm
  · rw [htake,readAll_torn hpre hfit hj] at hread
    split_ifs at hread
    exact (Except.ok.inj hread).symm

/-- Journaling goes on behind a cut file, whatever is appended, exactly when the file ends with its last
complete frame. -/
theorem Journal.continues_iff (hsmall : ∃ a b : Command, a ≠ b ∧ Short postcard a ∧ Short postcard b)
    (h : ∀ cmd ∈ cmds, Fits postcard cmd) {k : ℕ} {recovered : List Command}
    (hread : readAll postcard crc32 ((cmds.flatMap (writeFrame postcard crc32)).take k) = .ok recovered)
    (config : JournalConfig) :
    (∀ es : List (Command × Bool), (∀ e ∈ es, Fits postcard e.1) →
      readAll postcard crc32 (((openWithConfig ((cmds.flatMap (writeFrame postcard crc32)).take k) config).appendAll
        postcard crc32 es).flush postcard crc32).file = .ok (recovered ++ es.map Prod.fst)) ↔
      (cmds.flatMap (writeFrame postcard crc32)).take k =
        (completeIn postcard crc32 cmds k).flatMap (writeFrame postcard crc32) := by
  have hrec := readAll_take_ok h hread
  rw [← hrec]
  have hpre : ∀ c ∈ recovered, Fits postcard c := fun c hc => h c (completeIn_subset cmds k (hrec ▸ hc))
  simp only [file_flush_appendAll,openWithConfig,List.nil_append]
  constructor
  · intro hall
    rcases take_cases crc32 h k with ⟨heq,htake⟩ | ⟨torn,j,hfit,hj,htake,-⟩
    · rw [htake,hrec,heq]
    rw [← hrec] at htake
    rw [htake,readAll_torn hpre hfit hj] at hread
    by_cases h0 : j = 0
    · rw [htake,h0,List.take_zero,List.append_nil]
    have hcut : ¬ (4 ≤ j ∧ j < 4+(postcard.encode torn).length) := by
      intro hpayload
      rw [if_pos hpayload] at hread
      cases hread
    obtain ⟨cmd,hs,hlost⟩ := torn_loses_one crc32 hsmall hpre hfit (Nat.pos_of_ne_zero h0) hj hcut
    refine absurd ?_ hlost
    have hnew := hall [(cmd,false)] (by simpa using hs.fits)
    rw [htake] at hnew
    simpa only [List.map_cons,List.map_nil,List.flatMap_cons,List.flatMap_nil,List.append_nil,List.append_assoc]
      using hnew
  · intro hwhole es hes
    rw [hwhole,← List.flatMap_append]
    refine readAll_frames fun c hc => ?_
    rcases List.mem_append.mp hc with hc | hc
    · exact hpre c hc
    · obtain ⟨e,he,rfl⟩ := List.mem_map.mp hc
      exact hes e he

/-- Cut at the end of the first frame. -/
theorem Journal.continues_boundary :
    readAll Postcard.standard.command Crc32.hash (((openWithConfig (([.cancel ⟨1,7,1,1⟩,.cancel ⟨2,8,1,1⟩].flatMap
        (writeFrame Postcard.standard.command Crc32.hash)).take 13) ⟨1,0⟩).appendAll Postcard.standard.command
        Crc32.hash [(.cancel ⟨3,9,1,1⟩,false)]).flush Postcard.standard.command Crc32.hash).file =
      .ok ([.cancel ⟨1,7,1,1⟩] ++ [(.cancel ⟨3,9,1,1⟩,false)].map Prod.fst) :=
  (Journal.continues_iff ⟨.cancel ⟨1,7,1,1⟩,.cancel ⟨2,8,1,1⟩,by decide,by decide +kernel,by decide +kernel⟩
    (by decide +kernel) (by decide +kernel) ⟨1,0⟩).mpr (by decide +kernel) _ (by decide +kernel)

/-- Cut inside the second header, the file reads as one command; a command appended to it makes it unreadable. -/
theorem Journal.header_cut_loses :
    readAll Postcard.standard.command Crc32.hash (([.cancel ⟨1,7,1,1⟩,.cancel ⟨2,8,1,1⟩].flatMap
        (writeFrame Postcard.standard.command Crc32.hash)).take 15) = .ok [.cancel ⟨1,7,1,1⟩] ∧
      readAll Postcard.standard.command Crc32.hash (((openWithConfig (([.cancel ⟨1,7,1,1⟩,.cancel ⟨2,8,1,1⟩].flatMap
        (writeFrame Postcard.standard.command Crc32.hash)).take 15) ⟨1,0⟩).appendAll Postcard.standard.command
        Crc32.hash [(.cancel ⟨3,9,1,1⟩,false)]).flush Postcard.standard.command Crc32.hash).file =
      .error .unexpectedEof := by
  decide +kernel

end Torn
end HighPerfTrading
