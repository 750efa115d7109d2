import LdkSample.Sweep.Descriptor

/-!
# The migration loses nothing

Every descriptor stays in a file of one of the three folders or in the sweeper's set
(`Covered`), at every step of every start, and a start that has seen the pending folder
hands all of them to the sweeper. The invariant also carries a set of descriptors the
sweeper already tracks, which it never loses.
-/

namespace LdkSample

namespace Sweep

open Crash

variable {δ : Type} {c : Codec δ} {w : Sweeper δ} {X Y : δ → Prop} {d t : State δ}

/-- A file of the folder holds `x`; of the pending files only those the migration moves count. -/
def InFolder (c : Codec δ) (d : State δ) (f : Folder) (x : δ) : Prop :=
  ∃ n b, d.file f n = some b ∧ (f = .pending → n.length = 64) ∧ c.Holds b x

def Covered (c : Codec δ) (d : State δ) (x : δ) : Prop :=
  (∃ f, InFolder c d f x) ∨ x ∈ d.rest

/-- The files the old version left to be moved hold descriptors and nothing else. -/
structure WellFormed (c : Codec δ) (d : State δ) : Prop where
  pending : ∀ n b, d.file .pending n = some b → n.length = 64 → c.IsEncoding b
  processing : ∀ n b, d.file .processing n = some b → c.IsEncoding b

def DistinctNames (d : State δ) : Prop :=
  ∀ n, n.length = 64 → d.file .pending n ≠ none → d.file .processing n = none

/-- `X` is covered and `Y` is tracked. -/
structure Inv (c : Codec δ) (X Y : δ → Prop) (d : State δ) : Prop where
  wellFormed : WellFormed c d
  nodup : d.rest.Nodup
  distinct : (∃ x, X x) → DistinctNames d
  covered : ∀ x, X x → Covered c d x
  tracked : ∀ x, Y x → x ∈ d.rest

/-! ## What the operations keep -/

theorem InFolder.congr {f : Folder} {x : δ} (h : ∀ n, t.file f n = d.file f n)
    (hx : InFolder c d f x) : InFolder c t f x := by
  obtain ⟨n, b, hb, hn⟩ := hx
  exact ⟨n, b, (h n).trans hb, hn⟩

theorem Inv.congr (hi : Inv c X Y d) (hf : ∀ f n, t.file f n = d.file f n)
    (hr : t.rest = d.rest) : Inv c X Y t where
  wellFormed := ⟨fun n b hb => hi.wellFormed.pending n b ((hf _ n).symm.trans hb),
    fun n b hb => hi.wellFormed.processing n b ((hf _ n).symm.trans hb)⟩
  nodup := hr ▸ hi.nodup
  distinct hx n hn hp := (hf _ n).trans (hi.distinct hx n hn (by rwa [hf] at hp))
  covered x hx := by
    rcases hi.covered x hx with ⟨f, hf'⟩ | hx
    · exact .inl ⟨f, hf'.congr (hf f)⟩
    · exact .inr (hr ▸ hx)
  tracked x hx := hr ▸ hi.tracked x hx

theorem Inv.mkdir (hi : Inv c X Y d) (f : Folder) : Inv c X Y (d.mkdir f) :=
  hi.congr (fun g n => d.file_mkdir f g n) (d.mkdir_rest f)

theorem Inv.moved (hi : Inv c X Y d) {n : Name} (hn : n.length = 64)
    (hm : Moved .pending .processing n d t) : Inv c X Y t := by
  have hsp : ∀ m, t.file .spendables m = d.file .spendables m :=
    Disk.file_congr (hm.dir _ (by decide) (by decide))
  refine ⟨⟨fun m b hb hl => ?_, fun m b hb => ?_⟩, hm.rest ▸ hi.nodup, fun hx m hl hp => ?_,
    fun x hx => ?_, fun x hx => hm.rest ▸ hi.tracked x hx⟩
  · by_cases he : m = n
    · subst he
      rw [hm.src_file] at hb
      cases hb
    · rw [hm.file _ m he] at hb
      exact hi.wellFormed.pending m b hb hl
  · by_cases he : m = n
    · subst he
      rw [hm.dst_file] at hb
      exact hi.wellFormed.pending m b hb hn
    · rw [hm.file _ m he] at hb
      exact hi.wellFormed.processing m b hb
  · by_cases he : m = n
    · subst he
      exact absurd hm.src_file hp
    · rw [hm.file _ m he] at hp ⊢
      exact hi.distinct hx m hl hp
  · rcases hi.covered x hx with ⟨f, m, b, hb, hl, hx'⟩ | hx'
    · by_cases he : m = n
      · subst he
        cases f with
        | pending => exact .inl ⟨.processing, m, b, hm.dst_file.trans hb, fun h => (nomatch h), hx'⟩
        | processing =>
          -- the rename would have overwritten this file
          rw [hi.distinct ⟨x, hx⟩ m hn hm.was] at hb
          cases hb
        | spendables => exact .inl ⟨.spendables, m, b, (hsp m).trans hb, hl, hx'⟩
      · exact .inl ⟨f, m, b, (hm.file f m he).trans hb, hl, hx'⟩
    · exact .inr (hm.rest ▸ hx')

/-- A removal keeps the invariant when what it may remove is elsewhere. -/
theorem Inv.shrinks (hi : Inv c X Y d) {f : Folder} (hs : Disk.Shrinks f d t)
    (helse : ∀ x, X x → InFolder c d f x → (∃ g, g ≠ f ∧ InFolder c d g x) ∨ x ∈ d.rest) :
    Inv c X Y t := by
  have hfile : ∀ g n b, t.file g n = some b → d.file g n = some b := by
    intro g n b hb
    by_cases hg : g = f
    · subst hg
      exact hs.file n b hb
    · exact (hs.file_ne hg n).symm.trans hb
  have hkeep : ∀ g x, g ≠ f → InFolder c d g x → InFolder c t g x :=
    fun g x hg hx => hx.congr (hs.file_ne hg)
  refine ⟨⟨fun n b hb => hi.wellFormed.pending n b (hfile _ n b hb),
    fun n b hb => hi.wellFormed.processing n b (hfile _ n b hb)⟩, hs.rest ▸ hi.nodup,
    fun hx n hn hp => ?_, fun x hx => ?_, fun x hx => hs.rest ▸ hi.tracked x hx⟩
  · obtain ⟨b, hb⟩ := Option.ne_none_iff_exists'.mp hp
    have hd := hi.distinct hx n hn (by rw [hfile _ n b hb]; simp)
    rw [Option.eq_none_iff_forall_ne_some] at hd ⊢
    exact fun b hb => hd b (hfile _ n b hb)
  · rcases hi.covered x hx with ⟨g, hg⟩ | hr
    · by_cases hgf : g = f
      · subst hgf
        rcases helse x hx hg with ⟨k, hk, hx'⟩ | hr
        · exact .inl ⟨k, hkeep k x hk hx'⟩
        · exact .inr (hs.rest ▸ hr)
      · exact .inl ⟨g, hkeep g x hgf hg⟩
    · exact .inr (hs.rest ▸ hr)

theorem InFolder.frame {N : Name → Prop} (hf : Disk.Frame .spendables N d t)
    (hfresh : ∀ n, N n → d.file .spendables n = none) {f : Folder} {x : δ}
    (hx : InFolder c d f x) : InFolder c t f x := by
  obtain ⟨n, b, hb, hn⟩ := hx
  by_cases hg : f = .spendables
  · subst hg
    have hnot : ¬ N n := fun h => by
      rw [hfresh n h] at hb
      cases hb
    exact ⟨n, b, (hf.file n hnot).trans hb, hn⟩
  · exact ⟨n, b, (hf.file_ne hg n).trans hb, hn⟩

/-- New files in the spendables folder overwrite nothing. -/
theorem Inv.frame (hi : Inv c X Y d) {N : Name → Prop} (hf : Disk.Frame .spendables N d t)
    (hfresh : ∀ n, N n → d.file .spendables n = none) : Inv c X Y t where
  wellFormed := ⟨fun n b hb => hi.wellFormed.pending n b ((hf.file_ne (by decide) n).symm.trans hb),
    fun n b hb => hi.wellFormed.processing n b ((hf.file_ne (by decide) n).symm.trans hb)⟩
  nodup := hf.rest ▸ hi.nodup
  distinct hx n hn hp := by
    rw [hf.file_ne (by decide)] at hp ⊢
    exact hi.distinct hx n hn hp
  covered x hx := by
    rcases hi.covered x hx with ⟨f, hx'⟩ | hx'
    · exact .inl ⟨f, hx'.frame hf hfresh⟩
    · exact .inr (hf.rest ▸ hx')
  tracked x hx := hf.rest ▸ hi.tracked x hx

theorem Inv.track (hi : Inv c X Y d) (w : Sweeper δ) (outputs : List δ) :
    Inv c X Y { d with rest := w.track d.rest outputs } where
  wellFormed := ⟨hi.wellFormed.pending, hi.wellFormed.processing⟩
  nodup := w.nodup_track _ _ hi.nodup
  distinct := hi.distinct
  covered x hx := (hi.covered x hx).imp id fun hr => (w.mem_track _ _ x).mpr (.inl hr)
  tracked x hx := (w.mem_track _ _ x).mpr (.inl (hi.tracked x hx))

/-! ## The parts of a start -/

/-- Nothing of `X` is left in the pending and processing folders only. -/
def Settled (c : Codec δ) (X : δ → Prop) (d : State δ) : Prop :=
  ∀ x, X x → InFolder c d .spendables x ∨ x ∈ d.rest

/-- What the removals of the end may remove is tracked. -/
def Removable (c : Codec δ) (X : δ → Prop) (d : State δ) : Prop :=
  ∀ x, X x → ∀ f, f ≠ .processing → InFolder c d f x → x ∈ d.rest

theorem movePending_spec (files : List Dir.Entry) :
    Triple
      (fun d => Inv c X Y d ∧ ∀ n, n.length = 64 → d.file .pending n ≠ none →
        n ∈ files.map Sigma.fst)
      (movePending files)
      (fun _ d => Inv c X Y d ∧ ∀ n, n.length = 64 → d.file .pending n = none)
      (Inv c X Y) := by
  let I : List Dir.Entry → State δ → Prop := fun files d => Inv c X Y d ∧
    ∀ n, n.length = 64 → d.file .pending n ≠ none → n ∈ files.map Sigma.fst
  have hbody : ∀ file files, Triple (I (file :: files))
      (if file.1.length = 64 then do
          createDirAll .processing
          rename .pending .processing file.1
        else pure ()) (fun _ => I files) (Inv c X Y) := by
    intro file files
    split
    · next hlen =>
      have hmk : ∀ d, I (file :: files) d → I (file :: files) (d.mkdir .processing) := by
        intro d hi
        refine ⟨hi.1.mkdir _, fun n hn hp => hi.2 n hn ?_⟩
        rwa [d.file_mkdir] at hp
      refine .bind (Q := fun _ => I (file :: files)) (.modify_of (fun _ hi => hi.1) hmk)
        fun _ => .exact fun d hi => ?_
      refine (rename_spec (by decide) file.1 d).post (fun _ t hm => ⟨hi.1.moved hlen hm, ?_⟩)
        fun t hm => hi.1.moved hlen hm
      intro n hn hp
      have hne : n ≠ file.1 := fun he => hp (he ▸ hm.src_file)
      rw [hm.file _ n hne] at hp
      exact (List.mem_cons.mp (hi.2 n hn hp)).resolve_left hne
    · next hlen =>
      refine .pure fun d hi => ⟨hi.1, fun n hn hp => ?_⟩
      exact (List.mem_cons.mp (hi.2 n hn hp)).resolve_left fun he => hlen (he ▸ hn)
  refine (Triple.forEach I hbody).post (fun _ d hi => ⟨hi.1, fun n hn => ?_⟩) fun _ hi => hi
  by_contra hp
  exact absurd (hi.2 n hn hp) List.not_mem_nil

theorem readProcessing_spec {P C : State δ → Prop} (e : Env) :
    Triple P (readProcessing e)
      (fun outputs d => P d ∧ (WellFormed c d → ∀ x, InFolder c d .processing x →
        c.Holds outputs x)) C := by
  apply Triple.bind (readDir_spec Folder.processing)
  intro a
  cases a with
  | none =>
    refine .pure fun d hd => ⟨hd.1, fun _ x hx => ?_⟩
    obtain ⟨n, b, hb, -⟩ := hx
    rw [Disk.file_of_none hd.2.symm] at hb
    cases hb
  | some a =>
    refine .pure fun d hd => ⟨hd.1, fun hw x hx => ?_⟩
    have hfile : ∀ n, d.file .processing n = a.lookup n := Disk.file_of_dir hd.2.symm
    obtain ⟨n, b, hb, -, hx⟩ := hx
    refine Codec.holds_flatten (fun bytes hbytes => ?_) (b := b) ?_ hx
    · obtain ⟨file, hmem, rfl⟩ := List.mem_map.mp hbytes
      exact hw.processing file.1 file.2 ((hfile _).trans (Listing.mem_list.mp hmem))
    · rw [hfile] at hb
      have hmem : (⟨n, b⟩ : Dir.Entry) ∈ (e.order .readProcessing).list a := Listing.mem_list.mpr hb
      exact List.mem_map_of_mem hmem

theorem writeOutputs_spec (e : Env) (outputs : List UInt8) :
    Triple
      (fun d => Inv c X Y d ∧ ∀ x, X x →
        InFolder c d .spendables x ∨ x ∈ d.rest ∨ c.Holds outputs x)
      (writeOutputs e outputs) (fun _ d => Inv c X Y d ∧ Settled c X d) (Inv c X Y) := by
  unfold writeOutputs
  split
  · next hnil =>
    refine .pure fun d hd => ⟨hd.1, fun x hx => ?_⟩
    exact (hd.2 x hx).imp id fun h => h.resolve_right fun hh => hh.ne_nil hnil
  · refine .bind (readDir_spec Folder.spendables) fun a => .exact fun d hd => ?_
    obtain ⟨⟨hi, hcov⟩, rfl⟩ := hd
    have hfresh : ∀ n, n = e.tmp ((d.dir .spendables).getD ∅) ∨
        n = e.key ((d.dir .spendables).getD ∅) → d.file .spendables n = none :=
      fun n hn => e.fresh_names d hn
    have hwrite : Triple (fun s => s = d)
        (storeWrite .spendables (e.key ((d.dir .spendables).getD ∅))
          (e.tmp ((d.dir .spendables).getD ∅)) outputs)
        (fun _ t => Inv c X Y t ∧ Settled c X t) (Inv c X Y) := by
      refine (storeWrite_spec (e.tmp_ne_key _) outputs d).post (fun _ t ht => ?_)
        fun t ht => hi.frame ht hfresh
      obtain ⟨hf, -, hkey, -⟩ := ht
      refine ⟨hi.frame hf hfresh, fun x hx => ?_⟩
      rcases hcov x hx with h | h | h
      · exact .inl (h.frame hf hfresh)
      · exact .inr (hf.rest ▸ h)
      · exact .inl ⟨_, outputs, hkey, fun h => (nomatch h), h⟩
    refine .bind hwrite fun _ => .exact fun d hd => ?_
    obtain ⟨hi, hset⟩ := hd
    have hrem : ∀ t, Disk.Shrinks .processing d t → Inv c X Y t ∧ Settled c X t := by
      intro t hs
      refine ⟨hi.shrinks hs fun x hx _ => ?_, fun x hx => ?_⟩
      · exact (hset x hx).imp (fun h => ⟨.spendables, by decide, h⟩) id
      · exact (hset x hx).imp (fun h => h.congr (hs.file_ne (by decide))) fun h => hs.rest ▸ h
    exact (removeDirAll_spec _ .processing d).post
      (fun _ t ht => hrem t (ht ▸ .remove .processing d)) fun t ht => (hrem t ht).1

/-- A start that sees the pending folder settles everything. -/
theorem gather_present (e : Env) :
    Triple (fun d => Inv c X Y d ∧ d.dir .pending ≠ none) (gather e)
      (fun _ d => Inv c X Y d ∧ Settled c X d) (Inv c X Y) := by
  apply Triple.bind (readDir_spec Folder.pending)
  intro a
  cases a with
  | none => exact .pure fun d hd => absurd hd.2.symm hd.1.2
  | some a =>
    have hmove : Triple
        (fun d => (Inv c X Y d ∧ d.dir .pending ≠ none) ∧ some a = d.dir .pending)
        (movePending ((e.order .movePending).list a))
        (fun _ d => Inv c X Y d ∧ ∀ n, n.length = 64 → d.file .pending n = none)
        (Inv c X Y) := by
      refine (movePending_spec _).pre fun d hd => ⟨hd.1.1, fun n _ hp => ?_⟩
      obtain ⟨b, hb⟩ := Option.ne_none_iff_exists'.mp hp
      rw [Disk.file_of_dir hd.2.symm] at hb
      have hmem : (⟨n, b⟩ : Dir.Entry) ∈ (e.order .movePending).list a := Listing.mem_list.mpr hb
      exact List.mem_map_of_mem hmem
    refine .bind hmove fun _ => .bind (readProcessing_spec (c := c) e) fun outputs =>
      (writeOutputs_spec e outputs).pre fun d hd => ?_
    obtain ⟨⟨hi, hnone⟩, hread⟩ := hd
    refine ⟨hi, fun x hx => ?_⟩
    rcases hi.covered x hx with ⟨f, hf⟩ | hr
    · cases f with
      | pending =>
        obtain ⟨n, b, hb, hn, -⟩ := hf
        rw [hnone n (hn rfl)] at hb
        cases hb
      | processing => exact .inr (.inr (hread hi.wellFormed x hf))
      | spendables => exact .inl hf
    · exact .inr (.inl hr)

theorem gather_absent (e : Env) :
    Triple (fun d => Inv c X Y d ∧ d.dir .pending = none) (gather e)
      (fun _ d => Inv c X Y d ∧ d.dir .pending = none) (Inv c X Y) := by
  apply Triple.bind (readDir_spec Folder.pending)
  intro a
  cases a with
  | none => exact .pure fun d hd => hd.1
  | some a =>
    refine .exact fun d hd => ?_
    rw [hd.1.2] at hd
    cases hd.2

theorem readSpendables_spec {P C : State δ → Prop} (e : Env) :
    Triple P (readSpendables c e)
      (fun outputs d => P d ∧ ∀ x, InFolder c d .spendables x → x ∈ outputs) C := by
  apply Triple.bind (readDir_spec Folder.spendables)
  intro a
  cases a with
  | none =>
    refine .pure fun d hd => ⟨hd.1, fun x hx => ?_⟩
    obtain ⟨n, b, hb, -⟩ := hx
    rw [Disk.file_of_none hd.2.symm] at hb
    cases hb
  | some a =>
    show Triple _ (unwrap (readFiles c ((e.order .readSpendables).list a))) _ _
    cases hr : readFiles c ((e.order .readSpendables).list a) with
    | none => exact .abort
    | some outputs =>
      refine .pure fun d hd => ⟨hd.1, fun x hx => ?_⟩
      obtain ⟨n, b, hb, -, hx⟩ := hx
      rw [Disk.file_of_dir hd.2.symm] at hb
      exact mem_readFiles hr ⟨n, b⟩ (Listing.mem_list.mpr hb) hx

theorem track_spec (w : Sweeper δ) (outputs : List δ) {Z : δ → Prop} :
    Triple (fun d => Inv c X Y d ∧ ∀ x, Z x → x ∈ outputs ∨ x ∈ d.rest)
      (trackSpendableOutputs w outputs)
      (fun _ d => Inv c X Y d ∧ ∀ x, Z x → x ∈ d.rest) (Inv c X Y) :=
  .modify (fun _ hd => hd.1.track w outputs) fun _ hd => ⟨hd.1.track w outputs, fun x hx =>
    (w.mem_track _ _ x).mpr ((hd.2 x hx).symm)⟩

/-- **Past the call of the sweeper** everything is tracked, if the pending folder was there. -/
theorem collect_present (w : Sweeper δ) (e : Env) :
    Triple (fun d => Inv c X Y d ∧ d.dir .pending ≠ none) (collect c w e)
      (fun _ d => Inv c X Y d ∧ ∀ x, X x → x ∈ d.rest) (Inv c X Y) := by
  refine .bind (gather_present e) fun _ => .bind (readSpendables_spec e) fun outputs =>
    (track_spec w outputs).pre fun d hd => ⟨hd.1.1, fun x hx => ?_⟩
  exact (hd.1.2 x hx).imp (hd.2 x) id

theorem collect_absent (w : Sweeper δ) (e : Env) :
    Triple (fun d => Inv c X Y d ∧ d.dir .pending = none) (collect c w e)
      (fun _ d => Inv c X Y d ∧ Removable c X d) (Inv c X Y) := by
  refine .bind (gather_absent e) fun _ => .bind (readSpendables_spec e) fun outputs =>
    .modify (fun d hd => hd.1.1.track w outputs) fun d hd => ⟨hd.1.1.track w outputs, ?_⟩
  obtain ⟨⟨-, hnone⟩, hread⟩ := hd
  intro x _ f hf hx
  cases f with
  | pending =>
    obtain ⟨n, b, hb, -⟩ := hx
    have hb' : d.file .pending n = some b := hb
    rw [Disk.file_of_none hnone] at hb'
    cases hb'
  | processing => exact absurd rfl hf
  | spendables => exact (w.mem_track _ _ x).mpr (.inr (hread x hx))

theorem cleanup_spec (e : Env) :
    Triple (fun d => Inv c X Y d ∧ Removable c X d) (cleanup e) (fun _ => Inv c X Y)
      (Inv c X Y) := by
  have hrem : ∀ f, f ≠ .processing → ∀ o, Triple (fun d => Inv c X Y d ∧ Removable c X d)
      (removeDirAll o f) (fun _ d => Inv c X Y d ∧ Removable c X d) (Inv c X Y) := by
    intro f hf o
    refine .exact fun d hd => (removeDirAll_spec o f d).post (fun _ t ht => ?_) fun t hs =>
      hd.1.shrinks hs fun x hx hin => .inr (hd.2 x hx f hf hin)
    subst ht
    have hs := Disk.Shrinks.remove f d
    refine ⟨hd.1.shrinks hs fun x hx hin => .inr (hd.2 x hx f hf hin), fun x hx g hg hin => ?_⟩
    obtain ⟨n, b, hb, hn⟩ := hin
    have hb' : d.file g n = some b := by
      by_cases hgf : g = f
      · subst hgf
        exact hs.file n b hb
      · exact (hs.file_ne hgf n).symm.trans hb
    exact hd.2 x hx g hg ⟨n, b, hb', hn⟩
  exact .bind (hrem .spendables (by decide) _) fun _ =>
    (hrem .pending (by decide) _).post (fun _ _ h => h.1) fun _ h => h

/-- Every start keeps the invariant, at each of its steps. -/
theorem migrate_spec (w : Sweeper δ) (e : Env) :
    Triple (Inv c X Y) (migrateDeprecatedSpendableOutputs c w e) (fun _ => Inv c X Y)
      (Inv c X Y) := by
  refine .get fun d hd => ?_
  split
  · exact .pure fun _ h => h ▸ hd
  · refine .bind (Q := fun _ d => Inv c X Y d ∧ Removable c X d) ?_ fun _ => cleanup_spec e
    by_cases hp : d.dir .pending = none
    · exact (collect_absent w e).pre fun _ h => h ▸ ⟨hd, hp⟩
    · refine ((collect_present w e).pre fun _ h => h ▸ ⟨hd, hp⟩).post (fun _ t ht => ?_) fun _ h => h
      exact ⟨ht.1, fun x hx _ _ _ => ht.2 x hx⟩

/-! ## Any number of starts -/

/-- The folders as the old version left them. -/
structure Legacy (c : Codec δ) (d : State δ) : Prop where
  wellFormed : WellFormed c d
  distinct : DistinctNames d
  nodup : d.rest.Nodup

theorem Legacy.inv (h : Legacy c d) : Inv c (Covered c d) (fun _ => False) d :=
  ⟨h.wellFormed, h.nodup, fun _ => h.distinct, fun _ hx => hx, fun _ hx => hx.elim⟩

variable [DecidableEq δ]

theorem onePending_wellFormed : WellFormed descriptorCodec onePending := by
  refine ⟨fun n b hb _ => ?_, fun n b hb => (nomatch hb)⟩
  obtain ⟨xs, hxs, -⟩ := holds_oneOutput
  exact ⟨xs, (onePending_file hb).2.trans hxs⟩

end Sweep

end LdkSample
