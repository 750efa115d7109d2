import Mathlib.Data.List.Basic

/-!
# Programs that can be killed

`Crash σ α` is a program over a durable state: the states it leaves behind after each
of its steps, and its result, which is `none` when it panics. A kill leaves one of
these states (`Leaves`), and `Restarts` chains starts that finish, panic or are killed.
`Triple P m Q C` is a partial triple with a crash condition: from `P`, every state after
a step meets `C`, and a result meets `Q`. Where a program is sure to return, `exec` gives
its result.
-/

namespace LdkSample

def Crash (σ α : Type) : Type := σ → List σ × Option (α × σ)

namespace Crash

variable {σ α β ε : Type}

/-- The states after each step. -/
def steps (m : Crash σ α) (s : σ) : List σ := (m s).1

def exec (m : Crash σ α) (s : σ) : Option (α × σ) := (m s).2

instance : Monad (Crash σ) where
  pure a s := ([], some (a, s))
  bind m f s :=
    match m s with
    | (ss, none) => (ss, none)
    | (ss, some (a, t)) => (ss ++ (f a t).1, (f a t).2)

def get : Crash σ σ := fun s => ([], some (s, s))

/-- One step. -/
def modify (f : σ → σ) : Crash σ Unit := fun s => ([f s], some ((), f s))

def abort : Crash σ α := fun _ => ([], none)

def unwrap : Option α → Crash σ α
  | some a => pure a
  | none => abort

def forEach : List β → (β → Crash σ Unit) → Crash σ Unit
  | [], _ => pure ()
  | b :: bs, f => f b >>= fun _ => forEach bs f

/-! ## Results -/

@[simp] theorem exec_pure (a : α) (s : σ) : (pure a : Crash σ α).exec s = some (a, s) := rfl

@[simp] theorem exec_get (s : σ) : (get : Crash σ σ).exec s = some (s, s) := rfl

@[simp] theorem exec_modify (f : σ → σ) (s : σ) : (modify f).exec s = some ((), f s) := rfl

theorem exec_bind (m : Crash σ α) (f : α → Crash σ β) (s : σ) :
    (m >>= f).exec s = (m.exec s).bind fun r => (f r.1).exec r.2 := by
  show (match m s with
    | (ss, none) => (ss, none)
    | (ss, some (a, t)) => (ss ++ (f a t).1, (f a t).2)).2 = _
  unfold exec
  split
  · next ss h => rw [h]; rfl
  · next ss a t h => rw [h]; rfl

theorem get_bind (f : σ → Crash σ β) (s : σ) : (get >>= f) s = f s s := rfl

theorem exec_bind_some {m : Crash σ α} {f : α → Crash σ β} {s t : σ} {a : α}
    (h : m.exec s = some (a, t)) : (m >>= f).exec s = (f a).exec t := by
  rw [exec_bind, h]
  rfl

theorem exec_bind_none {m : Crash σ α} {f : α → Crash σ β} {s : σ} (h : m.exec s = none) :
    (m >>= f).exec s = none := by
  rw [exec_bind, h]
  rfl

theorem exec_bind_inv {m : Crash σ α} {f : α → Crash σ β} {s u : σ} {b : β}
    (h : (m >>= f).exec s = some (b, u)) :
    ∃ a t, m.exec s = some (a, t) ∧ (f a).exec t = some (b, u) := by
  rw [exec_bind, Option.bind_eq_some_iff] at h
  obtain ⟨⟨a, t⟩, hm, hf⟩ := h
  exact ⟨a, t, hm, hf⟩

theorem exec_unwrap_inv {o : Option α} {s t : σ} {a : α}
    (h : (unwrap o : Crash σ α).exec s = some (a, t)) : o = some a ∧ t = s := by
  cases o with
  | none => cases h
  | some a' =>
    cases h
    exact ⟨rfl, rfl⟩

theorem exec_forEach_modify (bs : List β) (g : β → σ → σ) (s : σ) :
    (forEach bs fun b => modify (g b)).exec s = some ((), bs.foldl (fun s b => g b s) s) := by
  induction bs generalizing s with
  | nil => rfl
  | cons b bs ih => exact (exec_bind_some (exec_modify (g b) s)).trans (ih (g b s))

/-- A loop returns when its iterations keep what they need to return. -/
theorem exec_forEach_of {I : σ → Prop} {bs : List β} {f : β → Crash σ Unit}
    (h : ∀ b ∈ bs, ∀ s, I s → ∃ t, (f b).exec s = some ((), t) ∧ I t) {s : σ} (hs : I s) :
    ∃ t, (forEach bs f).exec s = some ((), t) ∧ I t := by
  induction bs generalizing s with
  | nil => exact ⟨s, rfl, hs⟩
  | cons b bs ih =>
    rw [List.forall_mem_cons] at h
    obtain ⟨u, hu, hI⟩ := h.1 s hs
    obtain ⟨t, ht, hI⟩ := ih h.2 hI
    exact ⟨t, (exec_bind_some hu).trans ht, hI⟩

/-- What a loop leaves, its last iteration leaves. -/
theorem exec_forEach_concat_inv {bs : List β} {b : β} {f : β → Crash σ Unit} {s t : σ}
    (h : (forEach (bs ++ [b]) f).exec s = some ((), t)) : ∃ u, (f b).exec u = some ((), t) := by
  induction bs generalizing s with
  | nil =>
    obtain ⟨_, u, ht, h⟩ := exec_bind_inv h
    cases h
    exact ⟨s, ht⟩
  | cons b bs ih =>
    obtain ⟨_, u, -, h⟩ := exec_bind_inv h
    exact ih h

theorem bind_pure (m : Crash σ α) : (m >>= pure) = m := by
  funext s
  show (match m s with
    | (ss, none) => (ss, none)
    | (ss, some (a, t)) => (ss ++ [], some (a, t))) = m s
  split
  · next h => exact h.symm
  · next h => rw [h, List.append_nil]

theorem forEach_singleton (b : β) (f : β → Crash σ Unit) : forEach [b] f = f b := bind_pure (f b)

/-- What follows takes no step. -/
theorem steps_bind_of_nil {m : Crash σ α} {f : α → Crash σ β} (h : ∀ a t, (f a).steps t = [])
    (s : σ) : (m >>= f).steps s = m.steps s := by
  show (match m s with
    | (ss, none) => (ss, none)
    | (ss, some (a, t)) => (ss ++ (f a t).1, (f a t).2)).1 = _
  unfold steps
  split
  · next hm => rw [hm]
  · next hm =>
    rw [hm]
    exact (congrArg _ (h _ _)).trans (List.append_nil _)

theorem steps_bind_none {m : Crash σ α} {f : α → Crash σ β} {s : σ} (h : m.exec s = none) :
    (m >>= f).steps s = m.steps s := by
  show (match m s with
    | (ss, none) => (ss, none)
    | (ss, some (a, t)) => (ss ++ (f a t).1, (f a t).2)).1 = (m s).1
  unfold exec at h
  split
  · next hm => rw [hm]
  · next hm =>
    rw [hm] at h
    cases h

theorem steps_bind_some {m : Crash σ α} {f : α → Crash σ β} {s t : σ} {a : α}
    (h : m.exec s = some (a, t)) : (m >>= f).steps s = m.steps s ++ (f a).steps t := by
  show (match m s with
    | (ss, none) => (ss, none)
    | (ss, some (a, t)) => (ss ++ (f a t).1, (f a t).2)).1 = (m s).1 ++ (f a t).1
  unfold exec at h
  split
  · next hm =>
    rw [hm] at h
    cases h
  · next hm =>
    rw [hm] at h ⊢
    cases h
    rfl

theorem mem_steps_bind {m : Crash σ α} {f : α → Crash σ β} {s u : σ} :
    u ∈ (m >>= f).steps s ↔
      u ∈ m.steps s ∨ ∃ a t, m.exec s = some (a, t) ∧ u ∈ (f a).steps t := by
  show u ∈ (match m s with
    | (ss, none) => (ss, none)
    | (ss, some (a, t)) => (ss ++ (f a t).1, (f a t).2)).1 ↔ _
  unfold steps exec
  split
  · next ss h => simp [h]
  · next ss a t h => simp [h]

theorem mem_steps_left {m : Crash σ α} {f : α → Crash σ β} {s u : σ} (h : u ∈ m.steps s) :
    u ∈ (m >>= f).steps s :=
  mem_steps_bind.mpr (.inl h)

theorem mem_steps_right {m : Crash σ α} {f : α → Crash σ β} {s t u : σ} {a : α}
    (hm : m.exec s = some (a, t)) (h : u ∈ (f a).steps t) : u ∈ (m >>= f).steps s :=
  mem_steps_bind.mpr (.inr ⟨a, t, hm, h⟩)

/-! ## Triples -/

/-- Partial correctness with the crash condition `C`. -/
def Triple (P : σ → Prop) (m : Crash σ α) (Q : α → σ → Prop) (C : σ → Prop) : Prop :=
  ∀ s, P s → (∀ t ∈ m.steps s, C t) ∧ ∀ a t, m.exec s = some (a, t) → Q a t

section Rules

variable {P P' I C : σ → Prop} {Q : α → σ → Prop} {R : β → σ → Prop} {m : Crash σ α}

theorem Triple.pre (h : Triple P m Q C) (hp : ∀ s, P' s → P s) : Triple P' m Q C :=
  fun s hs => h s (hp s hs)

theorem Triple.post {Q' : α → σ → Prop} {C' : σ → Prop} (h : Triple P m Q C)
    (hq : ∀ a s, Q a s → Q' a s) (hc : ∀ s, C s → C' s) : Triple P m Q' C' :=
  fun s hs => ⟨fun t ht => hc t ((h s hs).1 t ht), fun a t ht => hq a t ((h s hs).2 a t ht)⟩

/-- A program can be verified for each state it may start in. -/
theorem Triple.exact (h : ∀ s₀, P s₀ → Triple (fun s => s = s₀) m Q C) : Triple P m Q C :=
  fun s hs => h s hs s rfl

theorem Triple.pure {a : α} (h : ∀ s, P s → Q a s) : Triple P (Pure.pure a) Q C :=
  fun s hs => ⟨fun _ ht => (nomatch ht), fun _ _ he => by cases he; exact h s hs⟩

theorem Triple.abort : Triple P abort Q C :=
  fun _ _ => ⟨fun _ ht => (nomatch ht), fun _ _ he => (nomatch he)⟩

theorem Triple.unwrap {o : Option α} (h : ∀ a, o = some a → ∀ s, P s → Q a s) :
    Triple P (unwrap o) Q C := by
  cases o with
  | none => exact .abort
  | some a => exact .pure (h a rfl)

theorem Triple.modify {f : σ → σ} {Q : Unit → σ → Prop} (hc : ∀ s, P s → C (f s))
    (hq : ∀ s, P s → Q () (f s)) : Triple P (modify f) Q C :=
  fun s hs => ⟨fun _ ht => by rw [List.mem_singleton.mp ht]; exact hc s hs,
    fun _ _ he => by cases he; exact hq s hs⟩

/-- A step whose result condition is stronger than the crash condition. -/
theorem Triple.modify_of {f : σ → σ} (hc : ∀ s, I s → C s) (h : ∀ s, P s → I (f s)) :
    Triple P (Crash.modify f) (fun _ => I) C :=
  .modify (fun s hs => hc _ (h s hs)) h

theorem Triple.bind {f : α → Crash σ β} (hm : Triple P m Q C)
    (hf : ∀ a, Triple (Q a) (f a) R C) : Triple P (m >>= f) R C := by
  intro s hs
  obtain ⟨hc, hq⟩ := hm s hs
  refine ⟨fun u hu => ?_, fun b u hb => ?_⟩
  · rcases mem_steps_bind.mp hu with hu | ⟨a, t, ht, hu⟩
    · exact hc u hu
    · exact (hf a t (hq a t ht)).1 u hu
  · obtain ⟨a, t, ht, hb⟩ := exec_bind_inv hb
    exact (hf a t (hq a t ht)).2 b u hb

/-- A program that starts by reading the state is verified for each state it may read. -/
theorem Triple.get {f : σ → Crash σ β}
    (h : ∀ s₀, P s₀ → Triple (fun s => s = s₀) (f s₀) R C) : Triple P (Crash.get >>= f) R C :=
  fun s hs => h s hs s rfl

/-- The loop rule: `I` holds before each iteration, of what is left of the list. -/
theorem Triple.forEach {f : β → Crash σ Unit} (I : List β → σ → Prop) {bs : List β}
    (h : ∀ b bs, Triple (I (b :: bs)) (f b) (fun _ => I bs) C) :
    Triple (I bs) (forEach bs f) (fun _ => I []) C := by
  induction bs with
  | nil => exact .pure fun _ hs => hs
  | cons b bs ih => exact .bind (h b bs) fun _ => ih

end Rules

/-! ## What a program keeps -/

/-- `I` holds after every step and of the result. -/
def Keeps (I : σ → Prop) (m : Crash σ α) : Prop := Triple I m (fun _ => I) I

section Keeps

variable {I : σ → Prop}

theorem keeps_pure (a : α) : Keeps I (Pure.pure a) := .pure fun _ hs => hs

theorem keeps_abort : Keeps I (abort : Crash σ α) := .abort

theorem keeps_unwrap (o : Option α) : Keeps I (unwrap o) := .unwrap fun _ _ _ hs => hs

theorem keeps_modify {f : σ → σ} (h : ∀ s, I s → I (f s)) : Keeps I (modify f) :=
  .modify_of (fun _ hs => hs) h

theorem Keeps.bind {m : Crash σ α} {f : α → Crash σ β} (hm : Keeps I m) (hf : ∀ a, Keeps I (f a)) :
    Keeps I (m >>= f) := Triple.bind hm hf

theorem Keeps.and {J : σ → Prop} {m : Crash σ α} (h : Keeps I m) (h' : Keeps J m) :
    Keeps (fun s => I s ∧ J s) m := fun s hs =>
  ⟨fun t ht => ⟨(h s hs.1).1 t ht, (h' s hs.2).1 t ht⟩,
    fun a t ht => ⟨(h s hs.1).2 a t ht, (h' s hs.2).2 a t ht⟩⟩

theorem keeps_get {f : σ → Crash σ β} (h : ∀ s, Keeps I (f s)) : Keeps I (Crash.get >>= f) :=
  .get fun s hs => (h s).pre fun _ ht => ht ▸ hs

theorem keeps_forEach {bs : List β} {f : β → Crash σ Unit} (h : ∀ b, Keeps I (f b)) :
    Keeps I (forEach bs f) := .forEach (fun _ => I) fun b _ => h b

end Keeps

/-! ## Programs over a part of the state -/

/-- `m` run on the part of the state that `view` reads and `put` writes. -/
def within {τ : Type} (view : τ → σ) (put : σ → τ → τ) (m : Crash σ α) : Crash τ α := fun t =>
  ((m.steps (view t)).map fun s => put s t, (m.exec (view t)).map fun r => (r.1, put r.2 t))

section Within

variable {τ : Type} {view : τ → σ} {put : σ → τ → τ} {m : Crash σ α}

theorem exec_within_inv {t u : τ} {a : α} (h : (within view put m).exec t = some (a, u)) :
    ∃ s, m.exec (view t) = some (a, s) ∧ u = put s t := by
  obtain ⟨⟨a', s⟩, hm, hr⟩ := Option.map_eq_some_iff.mp h
  cases hr
  exact ⟨s, hm, rfl⟩

/-- A part is verified for the rest that stands around it. -/
theorem Triple.within {P C : τ → Prop} {Q : α → τ → Prop}
    (h : ∀ t, P t → Triple (fun s => s = view t) m (fun a s => Q a (put s t)) fun s => C (put s t)) :
    Triple P (within view put m) Q C := by
  intro t ht
  obtain ⟨hc, hq⟩ := h t ht _ rfl
  refine ⟨fun u hu => ?_, fun a u hu => ?_⟩
  · obtain ⟨s, hs, rfl⟩ := List.mem_map.mp hu
    exact hc s hs
  · obtain ⟨s, hs, rfl⟩ := exec_within_inv hu
    exact hq a s hs

end Within

/-! ## Kills and restarts -/

/-- The states a start of `m` in `s` can leave: it is killed before or after a step, or panics
there, or returns. -/
def Leaves (m : Crash σ α) (s t : σ) : Prop :=
  t = s ∨ t ∈ m.steps s ∨ ∃ a, m.exec s = some (a, t)

/-- Starts after one another, each with an environment of its own. -/
inductive Restarts (m : ε → Crash σ α) (s : σ) : σ → Prop where
  | refl : Restarts m s s
  | start {t u : σ} (e : ε) : Restarts m s t → Leaves (m e) t u → Restarts m s u

theorem Triple.leaves_of {P C : σ → Prop} {m : Crash σ α} (h : Triple P m (fun _ => C) C) {s t : σ}
    (hs : P s) (hc : C s) (hl : Leaves m s t) : C t := by
  rcases hl with rfl | ht | ⟨a, ht⟩
  · exact hc
  · exact (h s hs).1 t ht
  · exact (h s hs).2 a t ht

theorem Triple.leaves {C : σ → Prop} {m : Crash σ α} (h : Triple C m (fun _ => C) C) {s t : σ}
    (hs : C s) (hl : Leaves m s t) : C t :=
  h.leaves_of hs hs hl

/-- What every start keeps, whatever happens to it, holds after any number of starts. -/
theorem Restarts.inv {C : σ → Prop} {m : ε → Crash σ α}
    (h : ∀ e, Triple C (m e) (fun _ => C) C) {s t : σ} (hs : C s) (hr : Restarts m s t) : C t := by
  induction hr with
  | refl => exact hs
  | start e _ hl ih => exact (h e).leaves ih hl

/-- Starts that each meet `ok` in the state they begin in. -/
inductive RestartsAlong (ok : σ → ε → Prop) (m : ε → Crash σ α) (s : σ) : σ → Prop where
  | refl : RestartsAlong ok m s s
  | start {t u : σ} (e : ε) : RestartsAlong ok m s t → ok t e → Leaves (m e) t u →
      RestartsAlong ok m s u

theorem RestartsAlong.inv {C : σ → Prop} {ok : σ → ε → Prop} {m : ε → Crash σ α}
    (h : ∀ e s t, C s → ok s e → Leaves (m e) s t → C t) {s t : σ} (hs : C s)
    (hr : RestartsAlong ok m s t) : C t := by
  induction hr with
  | refl => exact hs
  | start e _ hok hl ih => exact h e _ _ ih hok hl

end Crash

end LdkSample
