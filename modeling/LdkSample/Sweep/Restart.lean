import LdkSample.Sweep.Coverage

/-!
# Restarting the migration

When a start of the migration gets to its end and leaves none of the three folders. It
takes the pending folder, a spendables folder whose files read back, and either bytes
to concatenate, which create that folder and empty the processing folder, or a
spendables folder that is there with nothing left to move.
-/

namespace LdkSample

namespace Sweep

open Crash

variable {δ : Type} {c : Codec δ} {w : Sweeper δ} {d t : State δ}

/-- The file `n` of the processing folder once the pending files have been moved. -/
def toMove (d : State δ) (n : Name) : Option (List UInt8) :=
  if n.length = 64 then (d.file .pending n).or (d.file .processing n) else d.file .processing n

/-- There is no processing folder, and no pending file for which the move creates it. -/
def NothingToMove (d : State δ) : Prop :=
  d.dir .processing = none ∧ ∀ n, n.length = 64 → d.file .pending n = none

/-- Every file of the spendables folder reads to its end as descriptors. -/
def Readable (c : Codec δ) (d : State δ) : Prop :=
  ∀ n b, d.file .spendables n = some b → (c.readAll b).isSome

/-- A file to concatenate is not empty. -/
def HasOutputs (d : State δ) : Prop := ∃ n b, toMove d n = some b ∧ b ≠ []

def CanRestart (c : Codec δ) (d : State δ) : Prop :=
  Migrated d ∨ d.dir .pending ≠ none ∧ Readable c d ∧
    (HasOutputs d ∨ d.dir .spendables ≠ none ∧ NothingToMove d)

/-- The start returns and leaves no folder, so that every later start returns at once. -/
def Completes (c : Codec δ) (w : Sweeper δ) (e : Env) (d : State δ) : Prop :=
  ∃ t, (migrateDeprecatedSpendableOutputs c w e).exec d = some ((), t) ∧ Migrated t ∧
    ∀ e', migrateDeprecatedSpendableOutputs c w e' t = ([], some ((), t))

theorem migrate_of_migrated (c : Codec δ) (w : Sweeper δ) (e : Env) (h : Migrated d) :
    migrateDeprecatedSpendableOutputs c w e d = ([], some ((), d)) := by
  apply (get_bind _ d).trans
  rw [if_pos h]
  rfl

/-! ## Moving the pending files -/

/-- What moving a pending file changes for none of the later steps. -/
structure Alike (d t : State δ) : Prop where
  rest : t.rest = d.rest
  spendables : t.dir .spendables = d.dir .spendables
  pending : t.dir .pending ≠ none
  toMove : ∀ n, toMove t n = toMove d n
  nothing : NothingToMove t ↔ NothingToMove d

theorem Alike.trans {u : State δ} (h : Alike d t) (h' : Alike t u) : Alike d u :=
  ⟨h'.rest.trans h.rest, h'.spendables.trans h.spendables, h'.pending,
    fun n => (h'.toMove n).trans (h.toMove n), h'.nothing.trans h.nothing⟩

theorem toMove_congr (h : ∀ f n, t.file f n = d.file f n) (n : Name) : toMove t n = toMove d n := by
  rw [toMove, toMove, h, h]

theorem toMove_moved {n : Name} (hn : n.length = 64) (hm : Moved .pending .processing n d t)
    (m : Name) : toMove t m = toMove d m := by
  by_cases he : m = n
  · subst he
    obtain ⟨b, hb⟩ := Option.ne_none_iff_exists'.mp hm.was
    rw [toMove, toMove, if_pos hn, if_pos hn, hm.src_file, hm.dst_file, hb]
    rfl
  · rw [toMove, toMove, hm.file _ m he, hm.file _ m he]

/-- One iteration of the move, on a file that is there. -/
theorem moveOne_exec {n : Name} (hn : n.length = 64)
    (hf : d.file .pending n ≠ none) :
    ∃ t, (do createDirAll .processing; rename .pending .processing n : Crash (State δ) Unit).exec d =
        some ((), t) ∧ Alike d t ∧ t.file .pending n = none ∧
      ∀ m, m ≠ n → t.file .pending m = d.file .pending m := by
  have hf' : (d.mkdir .processing).file .pending n ≠ none := by rwa [d.file_mkdir]
  obtain ⟨t, ht, hm⟩ := rename_exec (by decide) (d.mkdir_dir_self .processing) hf'
  refine ⟨t, (exec_bind_some (exec_modify _ d)).trans ht, ⟨hm.rest.trans (d.mkdir_rest _), ?_,
    hm.src_dir, fun m => ?_, ?_⟩, hm.src_file, fun m hne => ?_⟩
  · rw [hm.dir _ (by decide) (by decide), d.mkdir_dir_ne (by decide)]
  · rw [toMove_moved hn hm, toMove_congr (d.file_mkdir .processing)]
  · exact ⟨fun h => absurd h.1 hm.dst_dir, fun h => absurd (h.2 n hn) hf⟩
  · rw [hm.file _ m hne, d.file_mkdir]

theorem movePending_cons (file : Dir.Entry) (files : List Dir.Entry) :
    (movePending (file :: files) : Crash (State δ) Unit) =
      (if file.1.length = 64 then do
          createDirAll .processing
          rename .pending .processing file.1
        else pure ()) >>= fun _ => movePending files := rfl

theorem movePending_exec (files : List Dir.Entry) (hnd : (files.map Sigma.fst).Nodup)
    (hp : d.dir .pending ≠ none)
    (hf : ∀ n ∈ files.map Sigma.fst, d.file .pending n ≠ none)
    (hall : ∀ n, n.length = 64 → d.file .pending n ≠ none → n ∈ files.map Sigma.fst) :
    ∃ t, (movePending files).exec d = some ((), t) ∧ Alike d t ∧
      ∀ n, n.length = 64 → t.file .pending n = none := by
  induction files generalizing d with
  | nil =>
    refine ⟨d, rfl, ⟨rfl, rfl, hp, fun _ => rfl, .rfl⟩, fun n hn => ?_⟩
    by_contra h
    exact absurd (hall n hn h) List.not_mem_nil
  | cons file files ih =>
    rw [List.map_cons, List.nodup_cons] at hnd
    rw [List.map_cons, List.forall_mem_cons] at hf
    by_cases hlen : file.1.length = 64
    · obtain ⟨t, ht, halike, hgone, hkeep⟩ := moveOne_exec hlen hf.1
      have hne : ∀ n ∈ files.map Sigma.fst, n ≠ file.1 := fun n hn he => hnd.1 (he ▸ hn)
      obtain ⟨u, hu, hau, hnone⟩ := ih hnd.2 halike.pending
        (fun n hn => by rw [hkeep n (hne n hn)]; exact hf.2 n hn) fun n hn h => by
          have hnf : n ≠ file.1 := fun he => h (he ▸ hgone)
          rw [hkeep n hnf] at h
          exact (List.mem_cons.mp (hall n hn h)).resolve_left hnf
      refine ⟨u, ?_, halike.trans hau, hnone⟩
      rw [movePending_cons, if_pos hlen, exec_bind_some ht, hu]
    · obtain ⟨u, hu, hau, hnone⟩ := ih hnd.2 hp hf.2 fun n hn h =>
        (List.mem_cons.mp (hall n hn h)).resolve_left fun he => hlen (he ▸ hn)
      refine ⟨u, ?_, hau, hnone⟩
      rw [movePending_cons, if_neg hlen, exec_bind_some (exec_pure () d), hu]

/-! ## Concatenating the files -/

theorem readProcessing_exec (c : Codec δ) (e : Env) (d : State δ) :
    ∃ outputs, (readProcessing e).exec d = some (outputs, d) ∧
      (outputs = [] ↔ ∀ n b, d.file .processing n = some b → b = []) ∧
      ((∀ n b, d.file .processing n = some b → c.IsEncoding b) → c.IsEncoding outputs) := by
  cases hdir : d.dir .processing with
  | none =>
    have hexec : (readProcessing e).exec d = some ([], d) := by
      unfold readProcessing
      rw [exec_bind_some (readDir_exec _ d), hdir]
      rfl
    refine ⟨[], hexec, ⟨fun _ n b hb => ?_, fun _ => rfl⟩, fun _ => ⟨[], rfl⟩⟩
    rw [Disk.file_of_none hdir] at hb
    cases hb
  | some a =>
    have hmem : ∀ b, b ∈ ((e.order .readProcessing).list a).map Sigma.snd ↔
        ∃ n, d.file .processing n = some b := by
      intro b
      rw [List.mem_map]
      constructor
      · rintro ⟨file, hf, rfl⟩
        exact ⟨file.1, (Disk.file_of_dir hdir _).trans (Listing.mem_list.mp hf)⟩
      · rintro ⟨n, hn⟩
        rw [Disk.file_of_dir hdir] at hn
        exact ⟨⟨n, b⟩, Listing.mem_list.mpr hn, rfl⟩
    refine ⟨_, readProcessing_of_dir hdir e, ?_, fun h => ?_⟩
    · rw [List.flatten_eq_nil_iff]
      exact ⟨fun h n b hb => h b ((hmem b).mpr ⟨n, hb⟩), fun h b hb =>
        let ⟨n, hn⟩ := (hmem b).mp hb; h n b hn⟩
    · exact Codec.isEncoding_flatten fun b hb => let ⟨n, hn⟩ := (hmem b).mp hb; h n b hn

theorem isEncoding_toMove (hw : WellFormed c d) {n : Name} {b : List UInt8}
    (h : toMove d n = some b) : c.IsEncoding b := by
  unfold toMove at h
  split at h
  · next hn =>
    cases hp : d.file .pending n with
    | none =>
      rw [hp, Option.none_or] at h
      exact hw.processing n b h
    | some b' =>
      rw [hp] at h
      cases h
      exact hw.pending n b hp hn
  · exact hw.processing n b h

/-- Writing outputs to a new file, and removing the processing folder they come from. -/
theorem writeOutputs_exec (e : Env) {outputs : List UInt8} (hne : outputs ≠ [])
    (henc : c.IsEncoding outputs) (hp : d.dir .processing ≠ none) :
    ∃ t, (writeOutputs e outputs).exec d = some ((), t) ∧ t.dir .processing = none ∧
      t.dir .spendables ≠ none ∧ t.dir .pending = d.dir .pending ∧
      (Readable c t ↔ Readable c d) := by
  obtain ⟨u, hu, hframe, hdir, hkey, htmp⟩ := writeOutputs_writes hp e hne
  refine ⟨_, hu, u.set_dir_self _ _, ?_, ?_, ?_⟩
  · rwa [u.set_dir_ne _ (by decide)]
  · rw [u.set_dir_ne _ (by decide), hframe.dir _ (by decide)]
  · have hfile : ∀ n, (u.set .processing none).file .spendables n = u.file .spendables n :=
      u.file_set_ne none (by decide)
    constructor
    · intro hr n b hb
      apply hr n b
      have hold : ¬ (n = e.tmp ((d.dir .spendables).getD ∅) ∨
          n = e.key ((d.dir .spendables).getD ∅)) := fun h => by
        rw [e.fresh_names d h] at hb
        cases hb
      rw [hfile, hframe.file n hold, hb]
    · intro hr n b hb
      rw [hfile] at hb
      by_cases hk : n = e.key ((d.dir .spendables).getD ∅)
      · subst hk
        rw [hkey] at hb
        cases hb
        obtain ⟨xs, rfl⟩ := henc
        rw [c.readAll_encode]
        rfl
      · by_cases ht : n = e.tmp ((d.dir .spendables).getD ∅)
        · subst ht
          rw [htmp] at hb
          cases hb
        · rw [hframe.file n (not_or.mpr ⟨ht, hk⟩)] at hb
          exact hr n b hb

/-- Up to the write of the outputs: the pending files have been moved, and the outputs are what is
in the processing folder. -/
theorem gather_moves (hw : WellFormed c d) (hp : d.dir .pending ≠ none) (e : Env) :
    ∃ u outputs, (gather e).exec d = (writeOutputs e outputs).exec u ∧ Alike d u ∧
      (∀ n, n.length = 64 → u.file .pending n = none) ∧ c.IsEncoding outputs ∧
      (outputs = [] ↔ ¬ HasOutputs d) ∧ (HasOutputs d → u.dir .processing ≠ none) := by
  obtain ⟨a, ha⟩ := Option.ne_none_iff_exists'.mp hp
  have hlist : ∀ n, n ∈ ((e.order .movePending).list a).map Sigma.fst ↔
      d.file .pending n ≠ none := by
    intro n
    rw [Disk.file_of_dir ha, Option.ne_none_iff_exists', List.mem_map]
    constructor
    · rintro ⟨file, hf, rfl⟩
      exact ⟨file.2, Listing.mem_list.mp hf⟩
    · rintro ⟨b, hb⟩
      exact ⟨⟨n, b⟩, Listing.mem_list.mpr hb, rfl⟩
  obtain ⟨u, hu, halike, hnone⟩ := movePending_exec ((e.order .movePending).list a)
    ((e.order .movePending).nodup a) hp (fun n hn => (hlist n).mp hn) fun n _ hn => (hlist n).mpr hn
  obtain ⟨outputs, hout, hnil, henc⟩ := readProcessing_exec c e u
  have hexec : (gather e).exec d = (writeOutputs e outputs).exec u := by
    unfold gather
    rw [exec_bind_some (readDir_exec _ d), ha]
    dsimp only
    rw [exec_bind_some hu, exec_bind_some hout]
  -- with no pending file left, what was to move is in the processing folder
  have hfile : ∀ n, u.file .processing n = toMove d n := by
    intro n
    rw [← halike.toMove n, toMove]
    split
    · next hn => rw [hnone n hn, Option.none_or]
    · rfl
  refine ⟨u, outputs, hexec, halike, hnone,
    henc fun n b hb => isEncoding_toMove hw ((hfile n).symm.trans hb), ?_, ?_⟩
  · rw [hnil, HasOutputs]
    simp only [hfile, not_exists, not_and, not_not]
  · rintro ⟨n, b, hb, -⟩ h
    rw [← hfile, Disk.file_of_none h] at hb
    cases hb

/-- What the first half of a start makes of the folders, when the pending folder is there. -/
theorem gather_exec (hw : WellFormed c d) (hp : d.dir .pending ≠ none) (e : Env) :
    ∃ t, (gather e).exec d = some ((), t) ∧ t.dir .pending ≠ none ∧
      (Readable c t ↔ Readable c d) ∧
      (t.dir .spendables ≠ none ↔ HasOutputs d ∨ d.dir .spendables ≠ none) ∧
      (t.dir .processing = none ↔ HasOutputs d ∨ NothingToMove d) := by
  obtain ⟨u, outputs, hexec, halike, hnone, henc, hhas, hproc⟩ := gather_moves hw hp e
  have hreadable : Readable c u ↔ Readable c d := by
    unfold Readable
    simp only [Disk.file_congr halike.spendables]
  by_cases hh : HasOutputs d
  · have hne : outputs ≠ [] := fun h => hhas.mp h hh
    obtain ⟨t, ht, hpr, hsp, hpe, hrd⟩ := writeOutputs_exec (c := c) e hne henc (hproc hh)
    refine ⟨t, hexec.trans ht, ?_, hrd.trans hreadable, ?_, ?_⟩
    · rw [hpe]
      exact halike.pending
    · exact ⟨fun _ => .inl hh, fun _ => hsp⟩
    · exact ⟨fun _ => .inl hh, fun _ => hpr⟩
  · refine ⟨u, ?_, halike.pending, hreadable, ?_, ?_⟩
    · rw [hexec, hhas.mpr hh]
      rfl
    · rw [halike.spendables]
      exact (or_iff_right hh).symm
    · rw [or_iff_right hh, ← halike.nothing]
      exact ⟨fun h => ⟨h, hnone⟩, fun h => h.1⟩

/-! ## Reading, tracking and removing -/

theorem readSpendables_exec (c : Codec δ) (e : Env) (d : State δ) :
    (Readable c d → ∃ outputs, (readSpendables c e).exec d = some (outputs, d)) ∧
      (¬ Readable c d → (readSpendables c e).exec d = none) := by
  unfold readSpendables
  rw [exec_bind_some (readDir_exec _ d)]
  cases hdir : d.dir .spendables with
  | none =>
    refine ⟨fun _ => ⟨[], rfl⟩, fun h => absurd (fun n b hb => ?_) h⟩
    rw [Disk.file_of_none hdir] at hb
    cases hb
  | some a =>
    have hiff : Readable c d ↔ (readFiles c ((e.order .readSpendables).list a)).isSome := by
      rw [readFiles_isSome]
      constructor
      · intro h file hf
        exact h file.1 file.2 ((Disk.file_of_dir hdir _).trans (Listing.mem_list.mp hf))
      · intro h n b hb
        rw [Disk.file_of_dir hdir] at hb
        exact h ⟨n, b⟩ (Listing.mem_list.mpr hb)
    rw [hiff]
    dsimp only
    cases readFiles c ((e.order .readSpendables).list a) with
    | none => exact ⟨fun h => (nomatch h), fun _ => rfl⟩
    | some outputs => exact ⟨fun _ => ⟨outputs, rfl⟩, fun h => absurd rfl h⟩

theorem cleanup_exec (e : Env) (d : State δ) :
    (cleanup e).exec d =
      if d.dir .spendables = none ∨ d.dir .pending = none then none
      else some ((), (d.set .spendables none).set .pending none) := by
  have hs := removeDirAll_exec (e.order .removeSpendables) .spendables d
  have hp := removeDirAll_exec (e.order .removePending) .pending (d.set .spendables none)
  rw [d.set_dir_ne none (by decide)] at hp
  unfold cleanup
  by_cases h : d.dir .spendables = none
  · rw [if_pos h] at hs
    rw [if_pos (.inl h), exec_bind_none hs]
  · rw [if_neg h] at hs
    rw [exec_bind_some hs, hp]
    exact if_congr (or_iff_right h).symm rfl rfl

/-- The second half of a start, from the state the first half leaves. -/
theorem finish_iff (c : Codec δ) (w : Sweeper δ) (e : Env) (d : State δ) :
    (∃ t, (readSpendables c e >>= fun outputs => trackSpendableOutputs w outputs >>= fun _ =>
        cleanup e).exec d = some ((), t) ∧ Migrated t) ↔
      Readable c d ∧ d.dir .spendables ≠ none ∧ d.dir .pending ≠ none ∧
        d.dir .processing = none := by
  obtain ⟨hread, hfail⟩ := readSpendables_exec c e d
  by_cases hr : Readable c d
  · obtain ⟨outputs, hout⟩ := hread hr
    rw [exec_bind_some hout]
    have hclean := cleanup_exec e { d with rest := w.track d.rest outputs }
    have hexec : (trackSpendableOutputs w outputs >>= fun _ => cleanup e).exec d =
        (cleanup e).exec { d with rest := w.track d.rest outputs } := exec_bind_some rfl
    rw [hexec, hclean]
    constructor
    · rintro ⟨t, ht, hm⟩
      split at ht
      · cases ht
      · next hnone =>
        obtain ⟨hsp, hp⟩ := not_or.mp hnone
        cases ht
        exact ⟨hr, hsp, hp, hm .processing⟩
    · rintro ⟨-, hsp, hp, hproc⟩
      refine ⟨_, if_neg (not_or.mpr ⟨hsp, hp⟩), fun f => ?_⟩
      cases f with
      | pending | spendables => rfl
      | processing => exact hproc
  · rw [exec_bind_none (hfail hr)]
    exact ⟨fun ⟨_, h, _⟩ => (nomatch h), fun h => absurd h.1 hr⟩

/-- The outcome of a start that does not return at the early exit. -/
theorem migrate_exec (w : Sweeper δ) {e : Env} (hm : ¬ Migrated d)
    (hg : (gather e).exec d = some ((), t)) :
    (migrateDeprecatedSpendableOutputs c w e).exec d =
      (readSpendables c e >>= fun outputs => trackSpendableOutputs w outputs >>= fun _ =>
        cleanup e).exec t := by
  have hbody : (migrateDeprecatedSpendableOutputs c w e).exec d =
      (collect c w e >>= fun _ => cleanup e).exec d := by
    show (if Migrated d then pure () else collect c w e >>= fun _ => cleanup e :
      Crash (State δ) Unit).exec d = _
    rw [if_neg hm]
  rw [hbody, exec_bind, collect, exec_bind_some hg, exec_bind, exec_bind, Option.bind_assoc]
  rfl

/-- **When a start migrates everything**, in a state whose pending and processing files hold
descriptors. -/
theorem completes_iff (w : Sweeper δ) (hw : WellFormed c d) (e : Env) :
    Completes c w e d ↔ CanRestart c d := by
  have hcompletes : Completes c w e d ↔
      ∃ t, (migrateDeprecatedSpendableOutputs c w e).exec d = some ((), t) ∧ Migrated t :=
    exists_congr fun t => and_congr_right fun _ =>
      ⟨fun h => h.1, fun h => ⟨h, fun e' => migrate_of_migrated c w e' h⟩⟩
  rw [hcompletes, CanRestart]
  by_cases hm : Migrated d
  · have hreturn := congrArg Prod.snd (migrate_of_migrated c w e hm)
    exact ⟨fun _ => .inl hm, fun _ => ⟨d, hreturn, hm⟩⟩
  · rw [or_iff_right hm]
    by_cases hp : d.dir .pending = none
    · -- nothing is gathered, and the removal of the pending folder panics
      have hg : (gather e).exec d = some ((), d) := by
        unfold gather
        rw [exec_bind_some (readDir_exec _ d), hp]
        rfl
      rw [migrate_exec w hm hg, finish_iff]
      exact ⟨fun h => absurd hp h.2.2.1, fun h => absurd hp h.1⟩
    · obtain ⟨t, hg, hpt, hr, hsp, hproc⟩ := gather_exec hw hp e
      rw [migrate_exec w hm hg, finish_iff, hr, hsp, hproc]
      constructor
      · rintro ⟨hr, hs, -, hn⟩
        exact ⟨hp, hr, (or_and_left).mpr ⟨hs, hn⟩⟩
      · rintro ⟨-, hr, h⟩
        exact ⟨hr, h.imp id And.left, hpt, h.imp id And.right⟩

/-! ## After any number of starts -/

/-- The folders of the old version: the pending folder is there, and every file that the
migration reads holds descriptors. -/
structure OldVersion (c : Codec δ) (d : State δ) : Prop where
  pending : d.dir .pending ≠ none
  wellFormed : WellFormed c d
  spendables : ∀ n b, d.file .spendables n = some b → c.IsEncoding b
  nodup : d.rest.Nodup

/-- **When the migration can be restarted**: in the states left by starts that were killed
anywhere, exactly where `CanRestart` holds. -/
theorem restart_iff (c : Codec δ) (w : Sweeper δ) (d : State δ) (h : OldVersion c d) (t : State δ)
    (hr : Restarts (migrateDeprecatedSpendableOutputs c w) d t) (e : Env) :
    Completes c w e t ↔ CanRestart c t := by
  have hi : Inv c (fun _ => False) (fun _ => False) d :=
    ⟨h.wellFormed, h.nodup, fun ⟨_, hx⟩ => hx.elim, fun _ hx => hx.elim, fun _ hx => hx.elim⟩
  have ht := hr.inv (fun e => migrate_spec w e) hi
  exact completes_iff w ht.wellFormed e

theorem onePending_oldVersion : OldVersion descriptorCodec onePending :=
  ⟨by decide, onePending_wellFormed, fun _ _ hb => (nomatch hb), List.nodup_nil⟩

/-- A start killed after the store write can be restarted. -/
theorem restart_iff_run :
    let w := unionSweeper SpendableOutputDescriptor
    ∃ t, Restarts (migrateDeprecatedSpendableOutputs descriptorCodec w) onePending t ∧
      t ≠ onePending ∧ CanRestart descriptorCodec t := by
  intro w
  let e : Env := .ofKey (List.replicate 64 99)
  let next := migrateDeprecatedSpendableOutputs descriptorCodec w e
  obtain ⟨t, ht⟩ : ∃ t, killedAfter 8 = some t := Option.isSome_iff_exists.mp (by decide +kernel)
  have hspendables : (killedAfter 8).map (fun t => (t.dir .spendables).isSome) = some true := by
    decide +kernel
  have hnext : (killedAfter 8).map (fun t => (next.exec t).map fun r => decide (Migrated r.2)) =
      some (some true) := by decide +kernel
  rw [ht] at hspendables hnext
  obtain ⟨⟨⟨⟩, u⟩, hu, hm⟩ := Option.map_eq_some_iff.mp (Option.some.inj hnext)
  have hr := Restarts.start (m := migrateDeprecatedSpendableOutputs descriptorCodec w) _ .refl
    (leaves_killedAfter ht)
  refine ⟨t, hr, fun he => ?_, ?_⟩
  · subst he
    cases Option.some.inj hspendables
  · refine (restart_iff descriptorCodec w onePending onePending_oldVersion t hr e).mp ?_
    have hmig := of_decide_eq_true hm
    exact ⟨u, hu, hmig, fun e' => migrate_of_migrated descriptorCodec w e' hmig⟩

/-- A kill between the last two removals leaves an empty pending folder alone, and the next
start panics. -/
theorem restart_panics :
    ¬ ∀ (w : Sweeper SpendableOutputDescriptor) (d t : State SpendableOutputDescriptor) (e e' : Env),
      OldVersion descriptorCodec d →
      Leaves (migrateDeprecatedSpendableOutputs descriptorCodec w e) d t →
      Completes descriptorCodec w e' t := by
  intro h
  let w := unionSweeper SpendableOutputDescriptor
  let e : Env := .ofKey (List.replicate 64 99)
  let next := migrateDeprecatedSpendableOutputs descriptorCodec w e
  obtain ⟨t, ht⟩ : ∃ t, killedAfter 13 = some t := Option.isSome_iff_exists.mp (by decide +kernel)
  have hnext : (killedAfter 13).map (fun t => (next.exec t).isSome) = some false := by
    decide +kernel
  rw [ht] at hnext
  obtain ⟨u, hu, -⟩ := h w onePending t _ e onePending_oldVersion (leaves_killedAfter ht)
  have hnone : (next.exec t).isSome = false := Option.some.inj hnext
  rw [hu] at hnone
  cases hnone

end Sweep

end LdkSample
