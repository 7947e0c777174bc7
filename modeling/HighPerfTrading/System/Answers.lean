import HighPerfTrading.Engine.EngineStep
import HighPerfTrading.System.System

/-! Runs of the system in which every event on its way to the gateway is kept with the command that it
answers and the engine that processed it. -/
namespace HighPerfTrading
open Gateway Gateway.GatewayContext

/-- An event with the command it answers and the engine that processed it. -/
structure Answer (S : Type) [Slab S Order] where
  command : Command
  engine : Engine S
  event : Event
  emitted : event ∈ (engine.process command).2

namespace Engine
variable {S : Type} [Slab S Order]

def answers (e : Engine S) (cmd : Command) : List (Answer S) :=
  (e.process cmd).2.attach.map fun event => ⟨cmd,e,event.1,event.2⟩

@[simp] theorem events_answers (e : Engine S) (cmd : Command) : (e.answers cmd).map Answer.event = (e.process cmd).2 := by
  simp [answers,Function.comp_def]

theorem command_answers {e : Engine S} {cmd : Command} {x : Answer S} (h : x ∈ e.answers cmd) : x.command = cmd := by
  obtain ⟨event,-,rfl⟩ := List.mem_map.mp h
  rfl

theorem engine_answers {e : Engine S} {cmd : Command} {x : Answer S} (h : x ∈ e.answers cmd) : x.engine = e := by
  obtain ⟨event,-,rfl⟩ := List.mem_map.mp h
  rfl

end Engine

namespace System
variable {S : Type} [Slab S Order]

/-- The answers on their way after an action. -/
def inFlightAfter (sys : System S) (inFlight : List (Answer S)) : Action → List (Answer S)
  | .engine => inFlight ++ (sys.toEngine.head?.map fun x => sys.engine.answers x.command).getD []
  | .deliver => inFlight.tail
  | _ => inFlight

/-- The system with the answers on their way. -/
def answering : Machine (System S × List (Answer S)) Action Empty :=
  .silent fun s a => (s.1.step a,s.1.inFlightAfter s.2 a)

/-- Where the runs lead that know what the events on their way to the gateway answer. -/
def Answered (funding : List (AccountId × Int64)) (apiKeys : OrdMap String AccountId)
    (allows : System S → List (Answer S) → Action → Prop) (sys : System S) (inFlight : List (Answer S)) : Prop :=
  answering.Reaches (fun s a => allows s.1 s.2 a) (System.start funding apiKeys,[]) (sys,inFlight)

/-- A sequence of actions, each allowed where it is taken. -/
def AllAllowed (allows : System S → List (Answer S) → Action → Prop) (sys : System S) (inFlight : List (Answer S))
    (as : List Action) : Prop :=
  answering.Obeys (fun s a => allows s.1 s.2 a) (sys,inFlight) as

instance (allows : System S → List (Answer S) → Action → Prop) [∀ sys inFlight a, Decidable (allows sys inFlight a)]
    (sys : System S) (inFlight : List (Answer S)) (as : List Action) : Decidable (AllAllowed allows sys inFlight as) :=
  Machine.decidableObeys answering _ _ _

def follow (sys : System S) (inFlight : List (Answer S)) (as : List Action) : System S × List (Answer S) :=
  answering.after (sys,inFlight) as

/-- The answers are those of the events on their way. -/
theorem events_after {sys : System S} {inFlight : List (Answer S)}
    (h : inFlight.map Answer.event = sys.toGateway.map Prod.snd)
    (a : Action) : (sys.inFlightAfter inFlight a).map Answer.event = (sys.step a).toGateway.map Prod.snd := by
  cases a with
  | connect decodeCommand => exact h
  | disconnect connId => exact h
  | frame connId bytes up => exact h
  | engine =>
    cases hq : sys.toEngine with
    | nil => simpa [inFlightAfter,System.step,engineStep,hq] using h
    | cons x rest => simp [inFlightAfter,System.step,engineStep,hq,h,Function.comp_def]
  | deliver =>
    cases hq : sys.toGateway with
    | nil =>
      have hnil : inFlight = [] := by simpa [hq] using h
      simp [inFlightAfter,System.step,System.deliver,hq,hnil]
    | cons p rest =>
      rw [inFlightAfter,List.map_tail,h,hq]
      simp [System.step,System.deliver,hq]

namespace Answered
variable {funding : List (AccountId × Int64)} {apiKeys : OrdMap String AccountId}
  {allows : System S → List (Answer S) → Action → Prop} {sys : System S} {inFlight : List (Answer S)}

theorem start : Answered funding apiKeys allows (System.start funding apiKeys) [] := Machine.Reaches.start

theorem follow (h : Answered funding apiKeys allows sys inFlight) (as : List Action)
    (ha : AllAllowed allows sys inFlight as) :
    Answered funding apiKeys allows (sys.follow inFlight as).1 (sys.follow inFlight as).2 :=
  Machine.Reaches.after h as ha

/-- What holds at first and is kept by every allowed step of a run holds in every state of it. -/
theorem keeps {P : System S → List (Answer S) → Prop} (h : Answered funding apiKeys allows sys inFlight)
    (h₀ : P (System.start funding apiKeys) [])
    (hstep : ∀ {sys inFlight a}, Answered funding apiKeys allows sys inFlight → P sys inFlight →
      allows sys inFlight a → P (sys.step a) (sys.inFlightAfter inFlight a)) : P sys inFlight :=
  Machine.Reaches.keeps (P := fun s => P s.1 s.2) h h₀ fun _ _ hs hp ha => hstep hs hp ha

theorem events (h : Answered funding apiKeys allows sys inFlight) :
    inFlight.map Answer.event = sys.toGateway.map Prod.snd :=
  h.keeps (P := fun sys inFlight => inFlight.map Answer.event = sys.toGateway.map Prod.snd) rfl
    fun _ hp _ => events_after hp _

end Answered

/-- The next event is that of the next answer. -/
theorem next_answer {sys : System S} {inFlight : List (Answer S)}
    (h : inFlight.map Answer.event = sys.toGateway.map Prod.snd)
    {connId : UInt64} {event : Event} {rest : List (UInt64 × Event)} (hq : sys.toGateway = (connId,event)::rest) :
    ∃ x later, inFlight = x::later ∧ x.event = event := by
  rw [hq] at h
  cases inFlight with
  | nil => cases h
  | cons x later => exact ⟨x,later,rfl,(List.cons.inj h).1⟩

end System
end HighPerfTrading
