/-
LibRe.Lib.Machine — runs of a state machine.

A machine takes one input after the other. `Always` says that something holds in every
state of a run, the first one included, and `Each` that every input of a run arrives in
a state that suits it. The rules lead what holds of a run back to one step.
-/
import Mathlib.Tactic

namespace LibRe.Machine

variable {σ ι : Type}

/-- `P` holds in every state of the run. -/
def Always (step : σ → ι → σ) (P : σ → Prop) : σ → List ι → Prop
  | s, [] => P s
  | s, i :: is => P s ∧ Always step P (step s i) is

/-- Every input of the run meets `C` in the state it arrives in. -/
def Each (step : σ → ι → σ) (C : σ → ι → Prop) : σ → List ι → Prop
  | _, [] => True
  | s, i :: is => C s i ∧ Each step C (step s i) is

variable {step : σ → ι → σ} {P Inv : σ → Prop} {C D : σ → ι → Prop} {s : σ}

theorem Always.start : ∀ {is : List ι}, Always step P s is → P s
  | [], h => h
  | _ :: _, h => h.1

theorem each_true : ∀ {is : List ι} {s : σ}, Each step (fun _ _ => True) s is
  | [], _ => trivial
  | _ :: _, _ => ⟨trivial, each_true⟩

theorem Each.and : ∀ {is : List ι} {s : σ}, Each step C s is → Each step D s is →
    Each step (fun s i => C s i ∧ D s i) s is
  | [], _, _, _ => trivial
  | _ :: _, _, h, h' => ⟨⟨h.1, h'.1⟩, h.2.and h'.2⟩

theorem Always.mono (hPQ : ∀ s, Inv s → P s) : ∀ {is : List ι} {s : σ}, Always step Inv s is →
    Always step P s is
  | [], _, h => hPQ _ h
  | _ :: _, _, h => ⟨hPQ _ h.1, Always.mono hPQ h.2⟩

/-- The last state of a run is one of its states. -/
theorem Always.last : ∀ {is : List ι} {s : σ}, Always step P s is → P (is.foldl step s)
  | [], _, h => h
  | i :: is, s, h => show P (is.foldl step (step s i)) from Always.last h.2

/-- What every suitable input keeps holds in the whole run. -/
theorem Each.always (hstep : ∀ s i, Inv s → C s i → Inv (step s i)) :
    ∀ {is : List ι} {s : σ}, Inv s → Each step C s is → Always step Inv s is
  | [], _, hs, _ => hs
  | _ :: _, s, hs, h => ⟨hs, Each.always hstep (hstep s _ hs h.1) h.2⟩

/-- A step from a state of the run. -/
theorem Each.of_always (hstep : ∀ s i, Inv s → C s i → D s i) :
    ∀ {is : List ι} {s : σ}, Always step Inv s is → Each step C s is → Each step D s is
  | [], _, _, _ => trivial
  | _ :: _, s, hs, h => ⟨hstep s _ hs.1 h.1, Each.of_always hstep hs.2 h.2⟩

/-- `D` is exactly what a suitable input needs for `P` to hold behind it: then `P` holds
in the whole run if and only if every input meets `D`. -/
theorem always_iff_each (hkeep : ∀ s i, Inv s → C s i → D s i → Inv (step s i))
    (hinv : ∀ s, Inv s → P s) (hneed : ∀ s i, Inv s → C s i → P (step s i) → D s i) :
    ∀ {is : List ι} {s : σ}, Inv s → Each step C s is → (Always step P s is ↔ Each step D s is)
  | [], s, hs, _ => iff_of_true (hinv s hs) trivial
  | i :: is, s, hs, hC => by
      constructor
      · intro h
        have hD := hneed s i hs hC.1 h.2.start
        exact ⟨hD, (always_iff_each hkeep hinv hneed (hkeep s i hs hC.1 hD) hC.2).mp h.2⟩
      · intro h
        exact ⟨hinv s hs, (always_iff_each hkeep hinv hneed (hkeep s i hs hC.1 h.1) hC.2).mpr h.2⟩

end LibRe.Machine
