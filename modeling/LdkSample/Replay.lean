import Mathlib.Data.List.Basic

/-!
# Replayed and reordered updates

A family of updates `act` overwrites when repeating an update changes nothing and
the updates respect each other's kernels: two values that `e` makes equal are still
made equal by `e` after any other update. Then an update that happens again later
may be left out (`Overwrites.absorb`), and so may a whole list of them
(`Overwrites.replay`), also where the first update of an absent value creates it
(`foldl_upsert_replay`).
-/

namespace LdkSample

section Overwrites

variable {α ε : Type}

structure Overwrites (act : α → ε → α) : Prop where
  idem : ∀ x e, act (act x e) e = act x e
  ker : ∀ x y e f, act x e = act y e → act (act x f) e = act (act y f) e

variable {act : α → ε → α} {e : ε} {x y : α} {l k : List ε}

theorem Overwrites.foldl_ker (ha : Overwrites act) (h : act x e = act y e) :
    act (l.foldl act x) e = act (l.foldl act y) e := by
  induction l generalizing x y with
  | nil => exact h
  | cons f l ih => exact ih (ha.ker x y e f h)

/-- An update that comes again later may be left out. -/
theorem Overwrites.absorb (ha : Overwrites act) (he : e ∈ l) :
    l.foldl act (act x e) = l.foldl act x := by
  obtain ⟨l₁, l₂, rfl⟩ := List.append_of_mem he
  rw [List.foldl_append, List.foldl_append, List.foldl_cons, List.foldl_cons,
    ha.foldl_ker (ha.idem x e)]

theorem Overwrites.replay (ha : Overwrites act) (h : ∀ e ∈ k, e ∈ l) :
    l.foldl act (k.foldl act x) = l.foldl act x := by
  induction k generalizing x with
  | nil => rfl
  | cons e k ih =>
    rw [List.foldl_cons, ih fun f hf => h f (List.mem_cons_of_mem _ hf),
      ha.absorb (h e List.mem_cons_self)]

end Overwrites

section Upsert

variable {V ε : Type}

/-- Update the value that is there, or put in `new`. -/
def upsert (new : ε → V) (act : V → ε → V) (o : Option V) (e : ε) : Option V :=
  match o with
  | some v => some (act v e)
  | none => some (new e)

theorem foldl_upsert_some (new : ε → V) (act : V → ε → V) (v : V) (es : List ε) :
    es.foldl (upsert new act) (some v) = some (es.foldl act v) := by
  induction es generalizing v with
  | nil => rfl
  | cons e es ih => exact ih (act v e)

theorem foldl_upsert_replay {new : ε → V} {act : V → ε → V} (ha : Overwrites act)
    (hnew : ∀ e, act (new e) e = new e) (o : Option V) (es : List ε) :
    es.foldl (upsert new act) (es.foldl (upsert new act) o) = es.foldl (upsert new act) o := by
  cases o with
  | some v =>
    rw [foldl_upsert_some, foldl_upsert_some, ha.replay fun e h => h]
  | none =>
    cases es with
    | nil => rfl
    | cons e es =>
      have h1 : (e :: es).foldl (upsert new act) none = some ((e :: es).foldl act (new e)) := by
        rw [List.foldl_cons, List.foldl_cons, hnew]
        exact foldl_upsert_some new act (new e) es
      rw [h1, foldl_upsert_some, ha.replay fun e h => h]

/-- Updating only what is there. -/
theorem foldl_map (act : V → ε → V) (o : Option V) (es : List ε) :
    es.foldl (fun o e => o.map (act · e)) o = o.map fun v => es.foldl act v := by
  induction es generalizing o with
  | nil => cases o <;> rfl
  | cons e es ih => rw [List.foldl_cons, ih]; cases o <;> rfl

end Upsert

end LdkSample
