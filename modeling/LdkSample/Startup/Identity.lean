import LdkSample.Startup.Boot

/-!
# Identity over restarts

The seed and the channel state over any number of starts, killed at any step. Both are kept in
the runs whose starts meet `OkStart`: once a seed is in use no start fails to read it and yet
creates the file, and once a manager is on disk none fails to open it and yet gets that far. Any
other start can lose one of them (`identity_kept`), as no error is told apart from a missing file
(`seed_replaced`).
-/

namespace LdkSample

namespace Startup

/-- `b` may come after `a`. -/
def Keeps : Act → Act → Prop
  | .keysManager _, .createSeed => False
  | .keysManager _, .writeSeed _ => False
  | .keysManager seed, .keysManager seed' => seed' = seed
  | .persistManager, .freshManager => False
  | _, _ => True

/-- From the first keys manager on there is one seed, and its file is left alone; from the first
manager written on there is no fresh one. -/
def IdentityKept (w : World) : Prop := w.log.Pairwise Keeps

/-- No outcome of the start makes it give up what earlier starts have set. -/
structure OkStart (w : World) (e : Env) : Prop where
  seed : ∀ seed, .keysManager seed ∈ w.log → e.seedFault = none ∨ e.createFault ≠ none
  manager : .persistManager ∈ w.log → e.seedFault = none → e.monitorsFault = none →
    e.polledTip ≠ none → e.managerFault = none

/-- The log and the files agree. -/
structure Inv (w : World) : Prop where
  kept : IdentityKept w
  seed : ∀ seed, .keysManager seed ∈ w.log → w.keysSeed = some seed.toList
  manager : .persistManager ∈ w.log → w.manager ≠ none
  order : .persistManager ∈ w.log → ∃ seed, .keysManager seed ∈ w.log

theorem inv_of_log_nil {w : World} (h : w.log = []) : Inv w where
  kept := by
    unfold IdentityKept
    rw [h]
    exact .nil
  seed _ hm := by rw [h] at hm; cases hm
  manager hm := by rw [h] at hm; cases hm
  order hm := by rw [h] at hm; cases hm

theorem kept_append {log : List Act} {a : Act} (h : log.Pairwise Keeps)
    (ha : ∀ b ∈ log, Keeps b a) : (log ++ [a]).Pairwise Keeps := by
  rw [List.pairwise_append]
  refine ⟨h, List.pairwise_singleton Keeps a, fun b hb c hc => ?_⟩
  rw [List.mem_singleton.mp hc]
  exact ha b hb

theorem mem_log_append {log : List Act} {a b : Act} (h : a ∈ log ++ [b]) : a ∈ log ∨ a = b := by
  rcases List.mem_append.mp h with h | h
  · exact .inl h
  · exact .inr (List.mem_singleton.mp h)

theorem openFile_ok {fault : Option IoErrorKind} {file : Option Bytes} {bytes : Bytes}
    (h : openFile fault file = .ok bytes) : fault = none ∧ file = some bytes := by
  unfold openFile at h
  split at h
  · cases h
  · cases h
    exact ⟨rfl, rfl⟩
  · cases h

theorem openFile_error {file : Option Bytes} {kind : IoErrorKind}
    (h : openFile none file = .error kind) : file = none := by
  cases file with
  | none => rfl
  | some bytes => cases h

/-! ## The stages -/

variable {L : Lightning} {e : Env}

/-- No keys manager has been built. -/
def Unbuilt (w : World) : Prop := ∀ seed, .keysManager seed ∉ w.log

/-- A seed in use is readable only as itself, and one that is not may be written. -/
def Ready (e : Env) (w : World) : Prop :=
  Inv w ∧ (.persistManager ∈ w.log → e.monitorsFault = none → e.polledTip ≠ none →
    e.managerFault = none)

theorem Inv.unpersisted {w : World} (hi : Inv w) (hu : Unbuilt w) : .persistManager ∉ w.log := by
  intro hm
  obtain ⟨seed, hseed⟩ := hi.order hm
  exact hu seed hseed

/-- Creating the seed file, or writing to it, before there is a keys manager. -/
theorem Inv.touchSeed {w : World} {a : Act} (hi : Inv w) (file : Option Bytes) (hu : Unbuilt w)
    (ha : a = .createSeed ∨ ∃ b, a = .writeSeed b) :
    Inv { w with keysSeed := file, log := w.log ++ [a] } ∧
      Unbuilt { w with keysSeed := file, log := w.log ++ [a] } := by
  have hunbuilt : ∀ seed, .keysManager seed ∉ w.log ++ [a] := by
    intro seed hm
    rcases mem_log_append hm with hm | hm
    · exact hu seed hm
    · rcases ha with rfl | ⟨b, rfl⟩ <;> cases hm
  have hnew : .persistManager ∉ w.log ++ [a] := by
    intro hm
    rcases mem_log_append hm with hm | hm
    · exact hi.unpersisted hu hm
    · rcases ha with rfl | ⟨b, rfl⟩ <;> cases hm
  refine ⟨⟨kept_append hi.kept fun b hb => ?_, fun seed hm => absurd hm (hunbuilt seed),
    fun hm => absurd hm hnew, fun hm => absurd hm hnew⟩, hunbuilt⟩
  cases b with
  | keysManager seed => exact absurd hb (hu seed)
  | persistManager => exact absurd hb (hi.unpersisted hu)
  | _ => rcases ha with rfl | ⟨b', rfl⟩ <;> trivial

/-- The seed file is written up to `rest`, before there is a keys manager. -/
def WritingSeed (key : Bytes32) (rest : Bytes) (w : World) : Prop :=
  Inv w ∧ Unbuilt w ∧ ∃ written, w.keysSeed = some written ∧ key.toList = written ++ rest

theorem WritingSeed.inv {key : Bytes32} {rest : Bytes} {w : World} (h : WritingSeed key rest w) :
    Inv w := h.1

theorem createSeed_spec (key : Bytes32) :
    Crash.Triple (fun w => Inv w ∧ Unbuilt w)
      (act .createSeed fun w => { w with keysSeed := some [] })
      (fun _ => WritingSeed key key.toList) Inv := by
  refine .modify_of (fun _ hw => hw.inv) fun w ⟨hi, hu⟩ => ?_
  obtain ⟨hi', hu'⟩ := hi.touchSeed (some []) hu (.inl rfl)
  exact ⟨hi', hu', [], rfl, rfl⟩

theorem writeSeed_spec (key : Bytes32) (b : UInt8) (rest : Bytes) :
    Crash.Triple (WritingSeed key (b :: rest))
      (act (.writeSeed b) fun w => { w with keysSeed := w.keysSeed.map (· ++ [b]) })
      (fun _ => WritingSeed key rest) Inv := by
  refine .modify_of (fun _ hw => hw.inv) fun w ⟨hi, hu, written, hw, hkey⟩ => ?_
  obtain ⟨hi', hu'⟩ := hi.touchSeed (w.keysSeed.map (· ++ [b])) hu (.inr ⟨b, rfl⟩)
  refine ⟨hi', hu', written ++ [b], ?_, ?_⟩
  · show w.keysSeed.map (· ++ [b]) = some (written ++ [b])
    rw [hw]
    rfl
  · rw [hkey, List.append_assoc]
    rfl

theorem WritingSeed.ready {key : Bytes32} {w : World} (h : WritingSeed key [] w) :
    Ready e w ∧ w.keysSeed = some key.toList := by
  obtain ⟨hi, hu, written, hw, hkey⟩ := h
  refine ⟨⟨hi, fun hm => absurd hm (hi.unpersisted hu)⟩, ?_⟩
  rw [hw, hkey, List.append_nil]

/-- The file is created only before there is a keys manager. -/
theorem OkStart.unbuilt {w : World} {kind : IoErrorKind} (hok : OkStart w e) (hi : Inv w)
    (hopen : openFile e.seedFault w.keysSeed = .error kind) (hcreate : e.createFault = none) :
    Unbuilt w := by
  intro seed hm
  rcases hok.seed seed hm with hfault | hfault
  · rw [hfault] at hopen
    have hnone := openFile_error hopen
    rw [hi.seed seed hm] at hnone
    cases hnone
  · exact hfault hcreate

theorem keysSeed_spec :
    Crash.Triple (fun w => Inv w ∧ OkStart w e) (keysSeed e)
      (fun r w => Inv w ∧ ∀ seed, r = some seed → Ready e w ∧ w.keysSeed = some seed.toList) Inv := by
  refine .get fun w₀ ⟨hi, hok⟩ => ?_
  split
  · next bytes hopen =>
    split
    · next hlen =>
      refine .pure ?_
      rintro w rfl
      obtain ⟨hfault, hfile⟩ := openFile_ok hopen
      refine ⟨hi, fun seed hseed => ?_⟩
      cases hseed
      refine ⟨⟨hi, fun hm => hok.manager hm hfault⟩, ?_⟩
      rw [hfile]
      rfl
    · exact .abort
  · next kind hopen =>
    split
    · refine .pure ?_
      rintro w rfl
      exact ⟨hi, fun seed hseed => (nomatch hseed)⟩
    · next hcreate =>
      have hu := hok.unbuilt hi hopen hcreate
      refine .bind ((createSeed_spec e.key).pre ?_) fun _ => ?_
      · rintro w rfl
        exact ⟨hi, hu⟩
      · refine .bind (.forEach (WritingSeed e.key) (writeSeed_spec e.key)) fun _ => .pure ?_
        intro w hw
        refine ⟨hw.inv, fun seed hseed => ?_⟩
        cases hseed
        exact hw.ready

/-- A keys manager has been built. -/
def Built (w : World) : Prop := Inv w ∧ ∃ seed, .keysManager seed ∈ w.log

theorem Inv.keysManager {w : World} {seed : Bytes32} (hi : Inv w)
    (hseed : w.keysSeed = some seed.toList) :
    Built { w with log := w.log ++ [.keysManager seed] } := by
  have hsame : ∀ seed', .keysManager seed' ∈ w.log → seed = seed' := by
    intro seed' hm
    have heq := hi.seed seed' hm
    rw [hseed, Option.some.injEq] at heq
    exact Vector.toList_inj.mp heq
  have hold : .persistManager ∈ w.log ++ [.keysManager seed] → .persistManager ∈ w.log := by
    intro hm
    rcases mem_log_append hm with hm | hm
    · exact hm
    · cases hm
  refine ⟨⟨kept_append hi.kept fun b hb => ?_, fun seed' hm => ?_, fun hm => hi.manager (hold hm),
    fun hm => ?_⟩, seed, List.mem_append_right _ List.mem_cons_self⟩
  · cases b with
    | keysManager seed' => exact hsame seed' hb
    | _ => trivial
  · rcases mem_log_append hm with hm | hm
    · exact hi.seed seed' hm
    · cases hm
      exact hseed
  · obtain ⟨seed', hs⟩ := hi.order (hold hm)
    exact ⟨seed', List.mem_append_left _ hs⟩

/-- Reading the manager, or making a fresh one where none has been written. -/
theorem Built.manager {w : World} {a : Act} (hb : Built w)
    (ha : a = .readManager ∨ a = .freshManager ∧ .persistManager ∉ w.log) :
    Built { w with log := w.log ++ [a] } := by
  obtain ⟨hi, seed, hseed⟩ := hb
  have hold {b : Act} (hm : b ∈ w.log ++ [a]) (hne : b ≠ .readManager ∧ b ≠ .freshManager) :
      b ∈ w.log := by
    rcases mem_log_append hm with hm | rfl
    · exact hm
    · rcases ha with rfl | ⟨rfl, -⟩
      · exact absurd rfl hne.1
      · exact absurd rfl hne.2
  refine ⟨⟨kept_append hi.kept fun b hb => ?_, fun seed' hm => hi.seed seed' (hold hm (by simp)),
    fun hm => hi.manager (hold hm (by simp)), fun hm => ?_⟩, seed, List.mem_append_left _ hseed⟩
  · rcases ha with rfl | ⟨rfl, hno⟩
    · cases b <;> trivial
    · cases b with
      | persistManager => exact absurd hb hno
      | _ => trivial
  · obtain ⟨seed', hs⟩ := hi.order (hold hm (by simp))
    exact ⟨seed', List.mem_append_left _ hs⟩

theorem channelManager_spec (ms : List (Stored ChannelMonitor)) (tip : BestBlock) :
    Crash.Triple (fun w => Built w ∧ (.persistManager ∈ w.log → e.managerFault = none))
      (channelManager L e ms tip) (fun _ => Built) Inv := by
  refine .get fun w₀ ⟨hb, hready⟩ => ?_
  split
  · refine .bind (Q := fun _ w => w = w₀) (.unwrap fun _ _ _ hw => hw) fun m => ?_
    refine .bind (Q := fun _ => Built) (.modify_of (fun _ hb => hb.1) ?_) fun _ => .pure fun _ hw => hw
    rintro w rfl
    exact hb.manager (.inl rfl)
  · next kind hopen =>
    -- a manager that was written can be opened
    have hno : .persistManager ∉ w₀.log := by
      intro hm
      rw [hready hm] at hopen
      exact hb.1.manager hm (openFile_error hopen)
    refine .bind (Q := fun _ => Built) (.modify_of (fun _ hb => hb.1) ?_) fun _ => .pure fun _ hw => hw
    rintro w rfl
    exact hb.manager (.inr ⟨rfl, hno⟩)

theorem outputSweeper_spec (m : ChannelManager) :
    Crash.Triple Built (outputSweeper L e m) (fun _ => Built) Inv := by
  refine .get fun w₀ hb => ?_
  split
  · exact .pure fun _ hw => hw ▸ hb
  · exact .unwrap fun _ _ _ hw => hw ▸ hb
  · exact .abort

theorem boot_spec :
    Crash.Triple (fun w => Inv w ∧ OkStart w e) (boot L e)
      (fun r w => Inv w ∧ (r ≠ none → Built w)) Inv := by
  refine .bind keysSeed_spec fun r => ?_
  cases r with
  | none => exact .pure fun w hw => ⟨hw.1, fun hne => absurd rfl hne⟩
  | some seed =>
    refine .bind (Q := fun _ w => Built w ∧ (.persistManager ∈ w.log → e.monitorsFault = none →
      e.polledTip ≠ none → e.managerFault = none)) (.modify ?_ ?_) fun _ => ?_
    · rintro w ⟨-, hw⟩
      obtain ⟨⟨hi, -⟩, hseed⟩ := hw seed rfl
      exact (hi.keysManager hseed).1
    · rintro w ⟨-, hw⟩
      obtain ⟨⟨hi, hready⟩, hseed⟩ := hw seed rfl
      refine ⟨hi.keysManager hseed, fun hm => hready ?_⟩
      rcases mem_log_append hm with hm | hm
      · exact hm
      · cases hm
    · refine .get fun w₀ ⟨hb, hready⟩ => ?_
      split
      · exact .abort
      · next hmonitors =>
        refine .bind (Q := fun _ w => Built w ∧ (.persistManager ∈ w.log → e.managerFault = none))
          (.unwrap ?_) fun tip => ?_
        · rintro tip htip w rfl
          exact ⟨hb, fun hm => hready hm hmonitors (by rw [htip]; simp)⟩
        · refine .bind (channelManager_spec _ tip) fun ⟨restarting, manager⟩ => ?_
          refine .bind (outputSweeper_spec _) fun sweeper => ?_
          refine .bind (Q := fun _ => Built) (.unwrap fun _ _ _ hw => hw) fun ⟨_, _, _, _⟩ => ?_
          refine .bind (Q := fun _ => Built) (.unwrap fun _ _ _ hw => hw) fun _ => ?_
          exact .pure fun w hw => ⟨hw.1, fun _ => hw⟩

theorem Built.outbound {w : World} (hb : Built w) (file : Option Bytes) :
    Built { w with outboundPayments := file } :=
  ⟨⟨hb.1.kept, hb.1.seed, hb.1.manager, hb.1.order⟩, hb.2⟩

theorem outboundPayments_spec : Crash.Triple Built (outboundPayments e) (fun _ => Built) Inv := by
  refine .get fun w₀ hb => ?_
  refine .bind (Q := fun _ w => w = w₀) (.unwrap fun _ _ _ hw => hw) fun bytes => ?_
  split
  · exact .abort
  · refine .bind (Q := fun _ => Built) (.modify_of (fun _ hb => hb.1) ?_) fun _ => .pure fun _ hw => hw
    rintro w rfl
    exact hb.outbound _

theorem Built.persist {w : World} (hb : Built w) (bytes : Bytes) :
    Built { w with manager := some bytes, log := w.log ++ [.persistManager] } := by
  obtain ⟨hi, seed, hseed⟩ := hb
  refine ⟨⟨kept_append hi.kept fun b _ => by cases b <;> trivial, fun seed' hm => ?_,
    fun _ => by simp, fun _ => ⟨seed, List.mem_append_left _ hseed⟩⟩, seed,
    List.mem_append_left _ hseed⟩
  rcases mem_log_append hm with hm | hm
  · exact hi.seed seed' hm
  · cases hm

theorem startLdk_spec :
    Crash.Triple (fun w => Inv w ∧ OkStart w e) (startLdk L e) (fun _ => Inv) Inv := by
  refine .bind boot_spec fun r => ?_
  cases r with
  | none => exact .pure fun w hw => hw.1
  | some b =>
    refine .bind (Q := fun _ => Built) (outboundPayments_spec.pre fun w hw => hw.2 (by simp))
      fun _ => ?_
    have hpersist : ∀ bytes : Bytes, Crash.Triple Built
        (act .persistManager fun w => { w with manager := some bytes }) (fun _ => Built) Inv :=
      fun bytes => .modify_of (fun _ hb => hb.1) fun _ hb => hb.persist bytes
    have hloop := @Crash.Triple.forEach _ _ _ _ (fun _ => Built) e.persisted fun b _ => hpersist b
    exact hloop.post (fun _ _ hb => hb.1) fun _ hi => hi

/-! ## Every other start can lose one of them -/

variable {w : World}

theorem not_kept_of_mem {t : World} {a b : Act} {as : List Act} (ha : a ∈ as)
    (hlog : t.log = as ++ [b]) (hab : ¬ Keeps a b) : ¬ IdentityKept t := by
  intro hk
  unfold IdentityKept at hk
  rw [hlog, List.pairwise_append] at hk
  exact hab (hk.2.2 a ha b List.mem_cons_self)

theorem seed_lost {seed : Bytes32} (hseed : .keysManager seed ∈ w.log) (hfault : e.seedFault ≠ none)
    (hcreate : e.createFault = none) :
    ∃ t ∈ (startLdk L e).steps w, ¬ IdentityKept t := by
  obtain ⟨kind, hkind⟩ := Option.ne_none_iff_exists'.mp hfault
  refine ⟨{ w with keysSeed := some [], log := w.log ++ [.createSeed] }, ?_,
    not_kept_of_mem hseed rfl fun h => h⟩
  apply Crash.mem_steps_left
  apply Crash.mem_steps_left
  unfold keysSeed Crash.steps
  rw [Crash.get_bind, hkind, hcreate]
  exact Crash.mem_steps_left (List.mem_singleton.mpr rfl)

theorem keysSeed_exec {seed : Bytes32} (hfault : e.seedFault = none)
    (hw : w.keysSeed = some seed.toList) : (keysSeed e).exec w = some (some seed, w) := by
  unfold keysSeed Crash.exec
  rw [Crash.get_bind, hfault, hw]
  show Crash.exec (if h : seed.toList.length = 32 then _ else _) w = _
  rw [dif_pos seed.length_toList]
  rfl

theorem manager_lost (hi : Inv w) (hm : .persistManager ∈ w.log) (hseed : e.seedFault = none)
    (hmonitors : e.monitorsFault = none) (htip : e.polledTip ≠ none)
    (hfault : e.managerFault ≠ none) : ∃ t ∈ (startLdk L e).steps w, ¬ IdentityKept t := by
  obtain ⟨kind, hkind⟩ := Option.ne_none_iff_exists'.mp hfault
  obtain ⟨tip, htip⟩ := Option.ne_none_iff_exists'.mp htip
  obtain ⟨seed, hbuilt⟩ := hi.order hm
  let w₁ : World := { w with log := w.log ++ [.keysManager seed] }
  refine ⟨{ w₁ with log := w₁.log ++ [.freshManager] }, ?_,
    not_kept_of_mem (List.mem_append_left _ hm) rfl fun h => h⟩
  apply Crash.mem_steps_left
  refine Crash.mem_steps_right (keysSeed_exec hseed (hi.seed seed hbuilt)) ?_
  have hact : (act (.keysManager seed) id).exec w = some ((), w₁) := rfl
  refine Crash.mem_steps_right hact ?_
  unfold Crash.steps
  rw [Crash.get_bind, hmonitors, htip]
  have htip : (Crash.unwrap (some tip)).exec w₁ = some (tip, w₁) := rfl
  refine Crash.mem_steps_right htip ?_
  apply Crash.mem_steps_left
  unfold channelManager Crash.steps
  rw [Crash.get_bind, hkind]
  exact Crash.mem_steps_left (List.mem_singleton.mpr rfl)

/-- A start that is killed anywhere, or not at all, keeps what was set exactly if it is `OkStart`. -/
theorem kept_iff (hi : Inv w) :
    (∀ t, Crash.Leaves (startLdk L e) w t → IdentityKept t) ↔ OkStart w e := by
  constructor
  · intro h
    have hkept : ¬ ∃ t ∈ (startLdk L e).steps w, ¬ IdentityKept t := by
      rintro ⟨t, ht, hnot⟩
      exact hnot (h t (.inr (.inl ht)))
    refine ⟨fun seed hseed => ?_, fun hm hseed hmonitors htip => ?_⟩
    · by_contra hno
      obtain ⟨hfault, hcreate⟩ := not_or.mp hno
      exact hkept (seed_lost hseed hfault (not_not.mp hcreate))
    · by_contra hfault
      exact hkept (manager_lost hi hm hseed hmonitors htip hfault)
  · intro hok t ht
    exact (startLdk_spec.leaves_of ⟨hi, hok⟩ hi ht).kept

/-- **Identity and channel state survive restarts** that meet `OkStart`, from the first start on;
and in every state they reach, any other start can lose one of them. -/
theorem identity_kept (L : Lightning) (w : World) (hw : w.log = []) :
    (∀ t, Crash.RestartsAlong OkStart (startLdk L) w t → IdentityKept t) ∧
    ∀ t e, Crash.RestartsAlong OkStart (startLdk L) w t →
      ((∀ u, Crash.Leaves (startLdk L e) t u → IdentityKept u) ↔ OkStart t e) := by
  have hstart : ∀ e s t, Inv s → OkStart s e → Crash.Leaves (startLdk L e) s t → Inv t :=
    fun _ _ _ hi hok hl => startLdk_spec.leaves_of ⟨hi, hok⟩ hi hl
  have hinv : ∀ t, Crash.RestartsAlong OkStart (startLdk L) w t → Inv t :=
    fun _ ht => ht.inv hstart (inv_of_log_nil hw)
  exact ⟨fun t ht => (hinv t ht).kept, fun t e ht => kept_iff (hinv t ht)⟩

section Examples

/-- The seed cannot be read, and the file can be created. -/
def unreadableSeed : Env :=
  { noFault with seedFault := some .other, key := Vector.replicate 32 8 }

/-- After the first start. -/
def started : World :=
  { noFiles with
    keysSeed := some (List.replicate 32 7)
    outboundPayments := some (OutboundPaymentInfoStorage.encode ⟨∅⟩)
    log := .createSeed :: List.replicate 32 (.writeSeed 7) ++
      [.keysManager (Vector.replicate 32 7), .freshManager] }

theorem started_leaves : Crash.Leaves (startLdk storedAtOld noFault) noFiles started :=
  .inr (.inr ⟨(), rfl⟩)

end Examples

/-- A first start, and what any later one may do. -/
theorem identity_kept_started : IdentityKept started ∧
    ((∀ u, Crash.Leaves (startLdk storedAtOld unreadableSeed) started u → IdentityKept u) ↔
      OkStart started unreadableSeed) := by
  have hrun : Crash.RestartsAlong OkStart (startLdk storedAtOld) noFiles started :=
    .start noFault .refl ⟨fun _ h => (nomatch h), fun h => (nomatch h)⟩ started_leaves
  have h := identity_kept storedAtOld noFiles rfl
  exact ⟨h.1 started hrun, h.2 started unreadableSeed hrun⟩

/-- **The seed is replaced** by a start that has too many files open when it reads it. -/
theorem seed_replaced : ¬ ∀ (L : Lightning) (w : World), w.log = [] →
    ∀ t, Crash.Restarts (startLdk L) w t → IdentityKept t := by
  intro h
  obtain ⟨u, hu, hnot⟩ : ∃ u ∈ (startLdk storedAtOld unreadableSeed).steps started,
      ¬ IdentityKept u := @seed_lost _ _ _ (Vector.replicate 32 7) (by decide) (by decide) rfl
  exact hnot (h storedAtOld noFiles rfl u
    (.start unreadableSeed (.start noFault .refl started_leaves) (.inr (.inl hu))))

end Startup

end LdkSample
