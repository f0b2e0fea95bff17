import Mathlib.Data.List.Basic

/-! Operations made of single writes to a durable storage. A crash between two writes loses the rest
of the operation and the memory, which the restart reads from the storage again. -/
namespace Lib

/-- A program over a storage `S` with writes `W` and a memory `A`. -/
structure Durable (S W A : Type) where
  perform : S → W → S
  /-- An operation: the writes it makes and the memory it leaves. -/
  Begins : S → A → List W → A → Prop
  restart : S → A

/-- The storage and the memory, the last write of the operation under way and what it has to write
yet. -/
structure Progress (S W A : Type) where
  storage : S
  memory : A
  last : Option W
  todo : List W

variable {S W A : Type}

namespace Durable

variable (M : Durable S W A)

def performAll (s : S) (ws : List W) : S := ws.foldl M.perform s

/-- The states of the runs that crash, if at all, between two writes with `Clean`: the last one made
and the next one to make. -/
inductive Reaches (Clean : Option W → Option W → Prop) (initial : S) : Progress S W A → Prop where
  | start : Reaches Clean initial ⟨initial, M.restart initial, none, []⟩
  | begin {s : S} {a a' : A} {last : Option W} {ws : List W}
      (idle : Reaches Clean initial ⟨s, a, last, []⟩) (op : M.Begins s a ws a') :
      Reaches Clean initial ⟨s, a', none, ws⟩
  | write {s : S} {a : A} {last : Option W} {w : W} {ws : List W}
      (busy : Reaches Clean initial ⟨s, a, last, w :: ws⟩) :
      Reaches Clean initial ⟨M.perform s w, a, some w, ws⟩
  | crash {s : S} {a : A} {last : Option W} {ws : List W}
      (busy : Reaches Clean initial ⟨s, a, last, ws⟩) (clean : Clean last ws.head?) :
      Reaches Clean initial ⟨s, M.restart s, none, []⟩

variable (Clean : Option W → Option W → Prop) (Safe Done : S → Prop)

/-- Along the writes the storage is safe wherever a crash may come, and done at their end. -/
def Survives : Option W → S → List W → Prop
  | _, s, [] => Done s
  | last, s, w :: ws => (Clean last (some w) → Safe s) ∧ Survives (some w) (M.perform s w) ws

variable {M Clean Safe Done} {s : S} {ws vs : List W} {last : Option W}

theorem Survives.append (h : M.Survives Clean Safe
    (fun s' => ∀ last, M.Survives Clean Safe Done last s' vs) last s ws) :
    M.Survives Clean Safe Done last s (ws ++ vs) := by
  induction ws generalizing s last with
  | nil => exact h last
  | cons w ws ih => exact ⟨h.1, ih h.2⟩

/-- Writes that keep a property by which the storage is safe. -/
theorem survives_of_keeps {P : S → Prop} (hs : P s) (hsafe : ∀ s, P s → Safe s)
    (hkeep : ∀ w ∈ ws, ∀ s, P s → P (M.perform s w)) (hdone : ∀ s, P s → Done s) :
    M.Survives Clean Safe Done last s ws := by
  induction ws generalizing s last with
  | nil => exact hdone s hs
  | cons w ws ih =>
    refine ⟨fun _ => hsafe s hs, ?_⟩
    apply ih (hkeep w (.head _) s hs)
    intro v hv
    exact hkeep v (.tail _ hv)

/-- Writes that no crash may come before. -/
theorem survives_of_unclean (hclean : ∀ w ∈ ws, ∀ last, ¬ Clean last (some w))
    (hdone : Done (M.performAll s ws)) : M.Survives Clean Safe Done last s ws := by
  induction ws generalizing s last with
  | nil => exact hdone
  | cons w ws ih =>
    refine ⟨fun h => absurd h (hclean w (.head _) last), ?_⟩
    apply ih
    · intro v hv
      exact hclean v (.tail _ hv)
    · exact hdone

/-- If operations keep an invariant of the idle program, and a safe storage gives it back after a
restart, it holds whenever the program is idle. -/
theorem Reaches.survives {initial : S} {x : Progress S W A} (h : M.Reaches Clean initial x)
    (Idle : S → A → Prop) (hinit : Safe initial)
    (hsafe : ∀ s a, Idle s a → Safe s) (hrestart : ∀ s, Safe s → Idle s (M.restart s))
    (hop : ∀ s a ws a', Idle s a → M.Begins s a ws a' →
      M.Survives Clean Safe (fun s' => Idle s' a') none s ws) :
    M.Survives Clean Safe (fun s' => Idle s' x.memory) x.last x.storage x.todo := by
  induction h with
  | start => exact hrestart _ hinit
  | begin _ op ih => exact hop _ _ _ _ ih op
  | write _ ih => exact ih.2
  | @crash s a last ws _ clean ih =>
    cases ws with
    | nil => exact hrestart _ (hsafe _ _ ih)
    | cons w ws => exact hrestart _ (ih.1 clean)

end Durable

end Lib
