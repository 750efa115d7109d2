import LdkSample.HashMap
import LdkSample.Machine.Crash

/-!
# Flat directories

A disk has folders named by `φ`, each absent or a map from file names to bytes, and
other durable state `τ`. The programs are the file operations of a start-up: each
creation, rename and removal is a step, a recursive removal takes the files one by one,
and a store write goes through a temporary file, which a kill leaves with any prefix of
the data. What an operation does is said by file (`Disk.file`).
-/

namespace LdkSample

abbrev Name := List UInt8

abbrev Dir := HashMap Name (List UInt8)

abbrev Dir.Entry := Sigma fun _ : Name => List UInt8

/-- The order in which a directory is listed. -/
structure Listing where
  list : Dir → List Dir.Entry
  perm : ∀ a, (list a).Perm a.entries

structure Disk (φ τ : Type) where
  dir : φ → Option Dir
  rest : τ

theorem Listing.mem_list {o : Listing} {a : Dir} {e : Dir.Entry} :
    e ∈ o.list a ↔ a.lookup e.1 = some e.2 := by
  rw [(o.perm a).mem_iff, ← AList.mem_lookup_iff, Option.mem_def]

theorem Listing.nodup (o : Listing) (a : Dir) : ((o.list a).map Sigma.fst).Nodup :=
  (((o.perm a).map Sigma.fst).nodup_iff).mpr a.nodupKeys

namespace Disk

variable {φ τ : Type}

def file (d : Disk φ τ) (f : φ) (n : Name) : Option (List UInt8) :=
  (d.dir f).bind fun a => a.lookup n

theorem file_of_dir {d : Disk φ τ} {f : φ} {a : Dir} (h : d.dir f = some a) (n : Name) :
    d.file f n = a.lookup n := by
  rw [file, h]
  rfl

theorem file_of_none {d : Disk φ τ} {f : φ} (h : d.dir f = none) (n : Name) :
    d.file f n = none := by
  rw [file, h]
  rfl

theorem file_congr {d t : Disk φ τ} {f : φ} (h : t.dir f = d.dir f) (n : Name) :
    t.file f n = d.file f n := by
  rw [file, file, h]

/-- Only the folder `f` differs, and in it only files with a name in `N`. -/
structure Frame (f : φ) (N : Name → Prop) (d t : Disk φ τ) : Prop where
  rest : t.rest = d.rest
  dir : ∀ g, g ≠ f → t.dir g = d.dir g
  file : ∀ n, ¬ N n → t.file f n = d.file f n

theorem Frame.trans {f : φ} {N : Name → Prop} {d t u : Disk φ τ} (h : Frame f N d t)
    (h' : Frame f N t u) : Frame f N d u :=
  ⟨h'.rest.trans h.rest, fun g hg => (h'.dir g hg).trans (h.dir g hg),
    fun n hn => (h'.file n hn).trans (h.file n hn)⟩

theorem Frame.file_ne {f g : φ} {N : Name → Prop} {d t : Disk φ τ} (h : Frame f N d t)
    (hg : g ≠ f) (n : Name) : t.file g n = d.file g n :=
  file_congr (h.dir g hg) n

/-- Only the folder `f` differs, and it has only lost files. -/
structure Shrinks (f : φ) (d t : Disk φ τ) : Prop where
  rest : t.rest = d.rest
  dir : ∀ g, g ≠ f → t.dir g = d.dir g
  file : ∀ n b, t.file f n = some b → d.file f n = some b

theorem Shrinks.refl (f : φ) (d : Disk φ τ) : Shrinks f d d :=
  ⟨rfl, fun _ _ => rfl, fun _ _ h => h⟩

theorem Shrinks.file_ne {f g : φ} {d t : Disk φ τ} (h : Shrinks f d t) (hg : g ≠ f) (n : Name) :
    t.file g n = d.file g n :=
  file_congr (h.dir g hg) n

variable [DecidableEq φ]

def set (d : Disk φ τ) (f : φ) (x : Option Dir) : Disk φ τ :=
  { d with dir := fun g => if g = f then x else d.dir g }

@[simp] theorem set_dir_self (d : Disk φ τ) (f : φ) (x : Option Dir) : (d.set f x).dir f = x :=
  if_pos rfl

theorem set_dir_ne (d : Disk φ τ) {f g : φ} (x : Option Dir) (h : g ≠ f) :
    (d.set f x).dir g = d.dir g :=
  if_neg h

@[simp] theorem file_set_none (d : Disk φ τ) (f : φ) (n : Name) : (d.set f none).file f n = none :=
  file_of_none (set_dir_self d f none) n

@[simp] theorem file_set_some (d : Disk φ τ) (f : φ) (a : Dir) (n : Name) :
    (d.set f (some a)).file f n = a.lookup n :=
  file_of_dir (set_dir_self d f (some a)) n

theorem file_set_ne (d : Disk φ τ) {f g : φ} (x : Option Dir) (h : g ≠ f) (n : Name) :
    (d.set f x).file g n = d.file g n :=
  file_congr (set_dir_ne d x h) n

/-- Replace one folder's contents, if the folder is there. -/
def mapDir (d : Disk φ τ) (f : φ) (g : Dir → Dir) : Disk φ τ := d.set f ((d.dir f).map g)

theorem Shrinks.remove (f : φ) (d : Disk φ τ) : Shrinks f d (d.set f none) where
  rest := rfl
  dir _ hg := set_dir_ne d _ hg
  file n b hb := by
    rw [file_set_none] at hb
    cases hb

theorem Shrinks.set_none {f : φ} {d t : Disk φ τ} (h : Shrinks f d t) :
    t.set f none = d.set f none := by
  obtain ⟨hr, hd, -⟩ := h
  have hdir : (t.set f none).dir = (d.set f none).dir := by
    funext g
    by_cases hg : g = f
    · subst hg
      rw [set_dir_self, set_dir_self]
    · rw [set_dir_ne _ _ hg, set_dir_ne _ _ hg, hd g hg]
  unfold set at hdir ⊢
  rw [hr]
  exact congrArg (Disk.mk · d.rest) hdir

/-- Create the folder if it is not there. -/
def mkdir (d : Disk φ τ) (f : φ) : Disk φ τ :=
  match d.dir f with
  | some _ => d
  | none => d.set f (some ∅)

@[simp] theorem mkdir_rest (d : Disk φ τ) (f : φ) : (d.mkdir f).rest = d.rest := by
  unfold mkdir
  split <;> rfl

theorem mkdir_dir_ne (d : Disk φ τ) {f g : φ} (h : g ≠ f) : (d.mkdir f).dir g = d.dir g := by
  unfold mkdir
  split
  · rfl
  · exact set_dir_ne d _ h

theorem mkdir_dir_self (d : Disk φ τ) (f : φ) : (d.mkdir f).dir f ≠ none := by
  unfold mkdir
  split
  · next a h => simp [h]
  · simp

/-- A new folder is empty, so no file changes. -/
@[simp] theorem file_mkdir (d : Disk φ τ) (f g : φ) (n : Name) :
    (d.mkdir f).file g n = d.file g n := by
  unfold mkdir
  split
  · rfl
  · next h =>
    by_cases hg : g = f
    · subst hg
      rw [file_set_some, file_of_none h, AList.lookup_empty]
    · exact file_set_ne d _ hg n

theorem mapDir_frame (d : Disk φ τ) (f : φ) {g : Dir → Dir} {N : Name → Prop}
    (h : ∀ a n, ¬ N n → (g a).lookup n = a.lookup n) : Frame f N d (d.mapDir f g) where
  rest := rfl
  dir k hk := set_dir_ne d _ hk
  file n hn := by
    unfold mapDir
    cases hd : d.dir f with
    | none => exact (file_set_none d f n).trans (file_of_none hd n).symm
    | some a => exact (file_set_some d f _ n).trans ((h a n hn).trans (file_of_dir hd n).symm)

end Disk

/-! ## Programs -/

namespace Crash

variable {φ τ : Type} [DecidableEq φ]

/-- `fs::read_dir`, `none` for a folder that cannot be read. -/
def readDir (f : φ) : Crash (Disk φ τ) (Option Dir) := do
  let d ← get
  pure (d.dir f)

/-- `fs::create_dir_all`. -/
def createDirAll (f : φ) : Crash (Disk φ τ) Unit := modify fun d => d.mkdir f

/-- `fs::rename` of a file into another folder. -/
def rename (src dst : φ) (n : Name) : Crash (Disk φ τ) Unit := do
  let d ← get
  match d.dir src, d.dir dst, d.file src n with
  | some a, some b, some bytes =>
    modify fun d => (d.set src (some (a.erase n))).set dst (some (b.insert n bytes))
  | _, _, _ => abort

/-- `fs::remove_dir_all`: the files one by one, then the folder. -/
def removeDirAll (o : Listing) (f : φ) : Crash (Disk φ τ) Unit := do
  match ← readDir f with
  | some a => do
    forEach (o.list a) fun e => modify fun d => d.mapDir f (AList.erase e.1)
    modify fun d => d.set f none
  | none => abort

/-- `FilesystemStore::write` of `data` at `key`, through the temporary file `tmp`. -/
def storeWrite (f : φ) (key tmp : Name) (data : List UInt8) : Crash (Disk φ τ) Unit := do
  createDirAll f
  forEach (List.range (data.length + 1)) fun k =>
    modify fun d => d.mapDir f (AList.insert tmp (data.take k))
  modify fun d => d.mapDir f fun a => (a.erase tmp).insert key data

/-! ## Specifications -/

omit [DecidableEq φ] in
theorem readDir_exec (f : φ) (d : Disk φ τ) : (readDir f).exec d = some (d.dir f, d) := rfl

omit [DecidableEq φ] in
theorem readDir_spec {P C : Disk φ τ → Prop} (f : φ) :
    Triple P (readDir f) (fun x d => P d ∧ x = d.dir f) C :=
  .get fun _ hs => .pure fun _ h => by subst h; exact ⟨hs, rfl⟩

/-- The file `n` is now in `dst`. -/
structure Moved (src dst : φ) (n : Name) (d t : Disk φ τ) : Prop where
  rest : t.rest = d.rest
  dir : ∀ g, g ≠ src → g ≠ dst → t.dir g = d.dir g
  src_dir : t.dir src ≠ none
  dst_dir : t.dir dst ≠ none
  src_file : t.file src n = none
  dst_file : t.file dst n = d.file src n
  file : ∀ g m, m ≠ n → t.file g m = d.file g m
  was : d.file src n ≠ none

theorem moved_rename {src dst : φ} (h : src ≠ dst) {n : Name} {d : Disk φ τ} {a b : Dir}
    {bytes : List UInt8} (ha : d.dir src = some a) (hb : d.dir dst = some b)
    (hn : d.file src n = some bytes) :
    Moved src dst n d ((d.set src (some (a.erase n))).set dst (some (b.insert n bytes))) where
  rest := rfl
  dir g hs hd := by rw [Disk.set_dir_ne _ _ hd, Disk.set_dir_ne _ _ hs]
  src_dir := by rw [Disk.set_dir_ne _ _ h, Disk.set_dir_self]; simp
  dst_dir := by rw [Disk.set_dir_self]; simp
  src_file := by rw [Disk.file_set_ne _ _ h, Disk.file_set_some, AList.lookup_erase]
  dst_file := by rw [Disk.file_set_some, AList.lookup_insert, hn]
  file g m hm := by
    by_cases hd : g = dst
    · subst hd
      rw [Disk.file_set_some, AList.lookup_insert_ne hm, Disk.file_of_dir hb]
    · rw [Disk.file_set_ne _ _ hd]
      by_cases hs : g = src
      · subst hs
        rw [Disk.file_set_some, AList.lookup_erase_ne hm, Disk.file_of_dir ha]
      · rw [Disk.file_set_ne _ _ hs]
  was := by rw [hn]; simp

theorem rename_spec {src dst : φ} (h : src ≠ dst) (n : Name) (d : Disk φ τ) :
    Triple (fun s => s = d) (rename src dst n) (fun _ => Moved src dst n d)
      (Moved src dst n d) := by
  refine .get fun s₀ hs₀ => ?_
  subst hs₀
  split
  · next a b bytes ha hb hn =>
    have hm := moved_rename h ha hb hn
    exact .modify (fun s hs => hs ▸ hm) fun s hs => hs ▸ hm
  · exact .abort

theorem rename_exec {src dst : φ} (h : src ≠ dst) {n : Name} {d : Disk φ τ}
    (hd : d.dir dst ≠ none) (hn : d.file src n ≠ none) :
    ∃ t, (rename src dst n).exec d = some ((), t) ∧ Moved src dst n d t := by
  obtain ⟨bytes, hb⟩ := Option.ne_none_iff_exists'.mp hn
  obtain ⟨b, hd⟩ := Option.ne_none_iff_exists'.mp hd
  obtain ⟨a, ha, -⟩ := Option.bind_eq_some_iff.mp hb
  refine ⟨(d.set src (some (a.erase n))).set dst (some (b.insert n bytes)), ?_,
    moved_rename h ha hd hb⟩
  unfold rename
  rw [exec_bind_some (exec_get d)]
  simp only [ha, hd, hb]
  rfl

theorem removeFiles_spec (f : φ) (es : List Dir.Entry) (d : Disk φ τ) :
    Triple (fun s => s = d) (forEach es fun e => modify fun d => d.mapDir f (AList.erase e.1))
      (fun _ => Disk.Shrinks f d) (Disk.Shrinks f d) := by
  refine (Triple.forEach (fun _ => Disk.Shrinks f d) fun e es => ?_).pre fun s hs => hs ▸ .refl f d
  have hstep : ∀ s, Disk.Shrinks f d s → Disk.Shrinks f d (s.mapDir f (AList.erase e.1)) := by
    intro s hs
    refine ⟨hs.rest, fun g hg => (Disk.set_dir_ne s _ hg).trans (hs.dir g hg), fun n b hb => ?_⟩
    apply hs.file n b
    obtain ⟨a, ha, hb⟩ := Option.bind_eq_some_iff.mp hb
    rw [Disk.mapDir, Disk.set_dir_self] at ha
    obtain ⟨a', ha', rfl⟩ := Option.map_eq_some_iff.mp ha
    by_cases hn : n = e.1
    · subst hn
      rw [AList.lookup_erase] at hb
      cases hb
    · rw [AList.lookup_erase_ne hn] at hb
      rw [Disk.file_of_dir ha', hb]
  exact .modify hstep hstep

theorem removeDirAll_spec (o : Listing) (f : φ) (d : Disk φ τ) :
    Triple (fun s => s = d) (removeDirAll o f) (fun _ t => t = d.set f none) (Disk.Shrinks f d) := by
  refine .get fun s₀ hs₀ => ?_
  subst hs₀
  have hnone : ∀ t, Disk.Shrinks f s₀ t → Disk.Shrinks f s₀ (t.set f none) :=
    fun t ht => ht.set_none ▸ .remove f s₀
  show Triple _ (match s₀.dir f with
    | some a => _
    | none => _) _ _
  split
  · exact .bind (removeFiles_spec f _ s₀) fun _ => .modify hnone fun t ht => ht.set_none
  · exact .abort

theorem removeDirAll_exec (o : Listing) (f : φ) (d : Disk φ τ) :
    (removeDirAll o f).exec d = if d.dir f = none then none else some ((), d.set f none) := by
  have hunfold : (removeDirAll o f).exec d = (match d.dir f with
      | some a => do
        forEach (o.list a) fun e => modify fun d => d.mapDir f (AList.erase e.1)
        modify fun d => d.set f none
      | none => abort : Crash (Disk φ τ) Unit).exec d :=
    exec_bind_some (readDir_exec f d)
  split
  · next h =>
    rw [hunfold, h]
    rfl
  · next h =>
    obtain ⟨a, ha⟩ := Option.ne_none_iff_exists'.mp h
    obtain ⟨t, hdone⟩ : ∃ t, (removeDirAll o f).exec d = some ((), t) := by
      rw [hunfold, ha]
      exact ⟨_, (exec_bind_some (exec_forEach_modify ..)).trans rfl⟩
    rw [hdone, (removeDirAll_spec o f d d rfl).2 _ _ hdone]

theorem storeWrite_spec {f : φ} {key tmp : Name} (hne : tmp ≠ key) (data : List UInt8)
    (d : Disk φ τ) :
    Triple (fun s => s = d) (storeWrite f key tmp data)
      (fun _ t => Disk.Frame f (fun n => n = tmp ∨ n = key) d t ∧ t.dir f ≠ none ∧
        t.file f key = some data ∧ t.file f tmp = none)
      (Disk.Frame f (fun n => n = tmp ∨ n = key) d) := by
  let I : Disk φ τ → Prop := fun t => Disk.Frame f (fun n => n = tmp ∨ n = key) d t ∧ t.dir f ≠ none
  have hmap : ∀ {t : Disk φ τ} {g : Dir → Dir},
      (∀ a n, ¬ (n = tmp ∨ n = key) → (g a).lookup n = a.lookup n) → I t → I (t.mapDir f g) := by
    intro t g hg ht
    refine ⟨ht.1.trans (t.mapDir_frame f hg), ?_⟩
    obtain ⟨a, ha⟩ := Option.ne_none_iff_exists'.mp ht.2
    rw [Disk.mapDir, Disk.set_dir_self, ha]
    simp
  have hmkdir : I (d.mkdir f) :=
    ⟨⟨d.mkdir_rest f, fun g hg => d.mkdir_dir_ne hg, fun n _ => d.file_mkdir f f n⟩,
      d.mkdir_dir_self f⟩
  have hloop : ∀ k, ∀ t, I t → I (t.mapDir f (AList.insert tmp (data.take k))) := fun k t ht =>
    hmap (fun a n hn => AList.lookup_insert_ne (not_or.mp hn).1) ht
  have hrename : ∀ t, I t → I (t.mapDir f fun a => (a.erase tmp).insert key data) := fun t ht =>
    hmap (fun a n hn => (AList.lookup_insert_ne (not_or.mp hn).2).trans
      (AList.lookup_erase_ne (not_or.mp hn).1)) ht
  refine .bind (.modify (fun s hs => hs ▸ hmkdir.1) fun s hs => hs ▸ hmkdir) fun _ => .bind
    (Triple.forEach (fun _ => I) fun k _ => .modify_of (fun _ ht => ht.1) (hloop k))
    fun _ => .modify (fun t ht => (hrename t ht).1) fun t ht => ?_
  obtain ⟨a, ha⟩ := Option.ne_none_iff_exists'.mp ht.2
  refine ⟨(hrename t ht).1, (hrename t ht).2, ?_, ?_⟩
  · rw [Disk.mapDir, ha, Option.map_some, Disk.file_set_some, AList.lookup_insert]
  · rw [Disk.mapDir, ha, Option.map_some, Disk.file_set_some, AList.lookup_insert_ne hne,
      AList.lookup_erase]

theorem storeWrite_exec {f : φ} {key tmp : Name} (hne : tmp ≠ key) (data : List UInt8)
    (d : Disk φ τ) :
    ∃ t, (storeWrite f key tmp data).exec d = some ((), t) ∧
      Disk.Frame f (fun n => n = tmp ∨ n = key) d t ∧ t.dir f ≠ none ∧
      t.file f key = some data ∧ t.file f tmp = none := by
  obtain ⟨t, ht⟩ : ∃ t, (storeWrite f key tmp data).exec d = some ((), t) :=
    ⟨_, (exec_bind_some (exec_modify _ d)).trans
      ((exec_bind_some (exec_forEach_modify ..)).trans rfl)⟩
  exact ⟨t, ht, (storeWrite_spec hne data d d rfl).2 () t ht⟩

end Crash

end LdkSample
