import BootSector.Command.Run
import BootSector.FileStore.PathMap
import Mathlib.Data.List.Basic
import Mathlib.Data.List.Induction

/-!
# Sources are independent of each other

An image is put into the store before the next source is read.  Still no source sees what became of
another:

* `PathName.imageOf_injective`: the images of two sources stand at different paths.
* `PathName.isSource_imageOf`: no image stands at the path of a source.

So every source is read as it was at the start, whatever stands in front of it in the list
(`Task.assembleEach_spec`), and a file at the end is the image of a source that has one
(`Task.file?_installedAll_of_ok`) or what it was (`Task.file?_installedAll_of_error`).
`Task.Independent` collects what follows for the images, the other files, the errors, and the order
of the paths.
-/

namespace BootSector

namespace PathName

variable {path p q : Bytes}

/-! ### Paths of images -/

theorem lastPart_suffix (path : Bytes) : lastPart path <:+ path := by
  rw [lastPart, ← List.reverse_prefix, List.reverse_reverse]
  exact List.takeWhile_prefix _

/-- What stands behind the last `b` of a list that has one, with that `b`, ends the list. -/
theorem suffix_of_contains {b : UInt8} {bs : Bytes} (h : bs.contains b) :
    b :: (bs.reverse.takeWhile (· != b)).reverse <:+ bs := by
  have hmem : b ∈ bs.reverse := List.mem_reverse.mpr (List.contains_iff_mem.mp h)
  obtain ⟨front, back, hsplit, hfront⟩ := List.eq_append_cons_of_mem hmem
  have htake : bs.reverse.takeWhile (· != b) = front := by
    have hpass : ∀ c ∈ front, (c != b) = true := fun c hc =>
      bne_iff_ne.mpr fun heq => hfront (heq ▸ hc)
    rw [hsplit, List.takeWhile_append_of_pos hpass, List.takeWhile_cons_of_neg (by simp),
      List.append_nil]
  refine ⟨back.reverse, ?_⟩
  rw [htake, ← List.reverse_reverse bs, hsplit]
  simp

theorem extension_suffix (path : Bytes) : extension path <:+ path := by
  dsimp only [extension]
  split
  next hdot => exact (suffix_of_contains hdot).trans (lastPart_suffix path)
  next => exact List.nil_suffix

/-- A path and that of its image differ in their extensions only. -/
theorem exists_stem (path : Bytes) :
    ∃ stem, path = stem ++ extension path ∧ imageOf path = stem ++ imageExtension := by
  obtain ⟨stem, hstem⟩ := extension_suffix path
  refine ⟨stem, hstem.symm, ?_⟩
  have hlength : path.length - (extension path).length = stem.length := by
    have hsum := congrArg List.length hstem
    rw [List.length_append] at hsum
    omega
  have htake : path.take stem.length = stem := by
    rw [← hstem]
    exact List.take_left
  rw [imageOf, hlength, htake]

theorem exists_stem_of_isSource (h : isSource path) :
    ∃ stem, path = stem ++ sourceExtension ∧ imageOf path = stem ++ imageExtension := by
  obtain ⟨stem, hpath, himage⟩ := exists_stem path
  rw [beq_iff_eq.mp h] at hpath
  exact ⟨stem, hpath, himage⟩

/-- **The images of different sources stand at different paths.** -/
theorem imageOf_injective (hp : isSource p) (hq : isSource q) (h : imageOf p = imageOf q) :
    p = q := by
  obtain ⟨stem, hstem, himage⟩ := exists_stem_of_isSource hp
  obtain ⟨stem', hstem', himage'⟩ := exists_stem_of_isSource hq
  rw [himage, himage', List.append_left_inj] at h
  rw [hstem, hstem', h]

/-- **No image stands at the path of a source.** -/
theorem isSource_imageOf (path : Bytes) : isSource (imageOf path) = false := by
  rw [Bool.eq_false_iff]
  intro hsource
  obtain ⟨stem, -, himage⟩ := exists_stem path
  obtain ⟨stem', hstem', -⟩ := exists_stem_of_isSource hsource
  have hlength : imageExtension.length = sourceExtension.length := by decide
  have hextensions : imageExtension = sourceExtension :=
    (List.append_inj' (himage.symm.trans hstem') hlength).2
  exact absurd hextensions (by decide)

end PathName

namespace Command

open PathName

variable {a : Assembler} {task : Task} {m : PathMap} {s path : Bytes}
  {sources paths : List Bytes}

/-! ### One source -/

/-- **What a source in a store comes to**: its code, or why it has none.  The source has to be there,
and both sweeps over it have to succeed. -/
def outcome (a : Assembler) (m : PathMap) (s : Bytes) : Except SourceFault Bytes :=
  match m.read s with
  | .error e => .error (.file e)
  | .ok text => (a.assemble text).mapError .assembly

/-- The error that is reported of a source. -/
def failure? (a : Assembler) (m : PathMap) (s : Bytes) : Option SourceError :=
  match outcome a m s with
  | .error fault => some ⟨s, fault⟩
  | .ok _ => none

namespace Task

/-- The store with the image of a source, if the source has one. -/
def installed (task : Task) (a : Assembler) (m : PathMap) (store : PathMap) (s : Bytes) : PathMap :=
  match outcome a m s with
  | .error _ => store
  | .ok code => store.put (imageOf s) (task.layout.bytes code)

/-- Complete definitions are all added to the assembler. -/
theorem exists_define (a : Assembler) {ds : List Definition} (h : ∀ d ∈ ds, d.isComplete) :
    ∃ b, define a ds = .ok b := by
  induction ds generalizing a with
  | nil => exact ⟨a, rfl⟩
  | cons d ds ih =>
    rw [define, if_pos (h d List.mem_cons_self)]
    exact ih _ fun d' hd' => h d' (List.mem_cons_of_mem d hd')

/-- **Assembling a source** does to the store what the outcome says, and nothing else. -/
theorem assemble_spec (ha : task.assembler = .ok a) (ho : task.output = [])
    (p : Progress PathMap) (s : Bytes) :
    (task.assemble p s).1.store = task.installed a p.store p.store s ∧
      (task.assemble p s).2.map (⟨s, ·⟩) = failure? a p.store s := by
  have himage : task.imagePath s = imageOf s := by
    rw [imagePath, ho]
    rfl
  simp only [assemble, ha, PathMap.source_eq, installed, failure?, outcome, himage]
  cases p.store.read s with
  | error e => exact ⟨rfl, rfl⟩
  | ok text =>
    simp only [Except.map, Assembler.assemble, Assembler.parse]
    cases (a.sweep (.ofBytes text)).result with
    | error e => exact ⟨rfl, rfl⟩
    | ok program =>
      dsimp only
      cases program.encode with
      | error e => exact ⟨rfl, rfl⟩
      | ok code =>
        -- the warning and the listing leave the store alone
        dsimp only
        cases task.layout.oversize code <;> cases task.listing <;> exact ⟨rfl, rfl⟩

/-! ### Source after source -/

/-- A store in which every source is what it is in another one. -/
def SameSources (m store : PathMap) : Prop :=
  ∀ s, isSource s → store.read s = m.read s

theorem SameSources.outcome_eq {store : PathMap} (h : SameSources m store) (hs : isSource s) :
    outcome a store s = outcome a m s := by
  rw [outcome, h s hs, outcome]

theorem refusal_installed (store : PathMap) (s : Bytes) :
    (task.installed a m store s).refusal = store.refusal := by
  rw [installed]
  split
  · rfl
  · exact PathMap.refusal_put

/-- An image is put at its own path only. -/
theorem file?_installed_of_ne {store : PathMap} (h : path ≠ imageOf s) :
    (task.installed a m store s).file? path = store.file? path := by
  rw [installed]
  split
  · rfl
  · exact PathMap.file?_put_of_ne h

/-- A source that fails puts nothing anywhere. -/
theorem installed_of_error {store : PathMap} {fault : SourceFault}
    (h : outcome a m s = .error fault) : task.installed a m store s = store := by
  rw [installed, h]

/-- An image leaves all sources as they are, as it stands at no source's path. -/
theorem SameSources.installed {store : PathMap} (h : SameSources m store) (s : Bytes) :
    SameSources m (task.installed a m store s) := by
  intro s' hs'
  have hne : s' ≠ imageOf s := by
    rintro rfl
    rw [isSource_imageOf] at hs'
    cases hs'
  rw [← h s' hs']
  exact PathMap.read_congr (file?_installed_of_ne hne) (refusal_installed store s)

/-- **Assembling sources in order** does to the store what their outcomes in the store at the start
say, and reports those that have no code. -/
theorem assembleEach_spec (p : Progress PathMap) (ha : task.assembler = .ok a)
    (ho : task.output = []) (hsources : ∀ s ∈ sources, isSource s) (hsame : SameSources m p.store) :
    (task.assembleEach p sources).1.store = sources.foldl (task.installed a m) p.store ∧
      (task.assembleEach p sources).2 = sources.filterMap (failure? a m) := by
  induction sources generalizing p with
  | nil => exact ⟨rfl, rfl⟩
  | cons s rest ih =>
    have houtcome : outcome a p.store s = outcome a m s :=
      hsame.outcome_eq (hsources s List.mem_cons_self)
    obtain ⟨hstore, hfault⟩ := assemble_spec ha ho p s
    have hinstalled : task.installed a p.store p.store s = task.installed a m p.store s := by
      rw [Task.installed, houtcome, Task.installed]
    have hfailure : failure? a p.store s = failure? a m s := by
      rw [failure?, houtcome, failure?]
    rw [hinstalled] at hstore
    rw [hfailure] at hfault
    have hsame' : SameSources m (task.assemble p s).1.store := by
      rw [hstore]
      exact hsame.installed s
    obtain ⟨hrest, herrors⟩ := ih _ (fun s' hs' => hsources s' (List.mem_cons_of_mem s hs')) hsame'
    refine ⟨?_, ?_⟩
    · rw [assembleEach, List.foldl_cons, ← hstore]
      exact hrest
    · rw [assembleEach]
      dsimp only
      rw [herrors, hfault, List.filterMap_cons]
      cases failure? a m s <;> rfl

/-! ### What becomes of the store -/

/-- The store after the images of some sources are put into it, one after the other. -/
def installedAll (task : Task) (a : Assembler) (m : PathMap) (sources : List Bytes) : PathMap :=
  sources.foldl (task.installed a m) m

theorem installedAll_concat (sources : List Bytes) (s : Bytes) :
    task.installedAll a m (sources ++ [s]) = task.installed a m (task.installedAll a m sources) s :=
  List.foldl_concat _ _ _ _

theorem refusal_installedAll (sources : List Bytes) :
    (task.installedAll a m sources).refusal = m.refusal := by
  induction sources using List.reverseRecOn with
  | nil => rfl
  | append_singleton sources s ih => rw [installedAll_concat, refusal_installed, ih]

/-- A file is left alone if it is not the image of a source that has one. -/
theorem file?_installedAll_of_error
    (h : ∀ s ∈ sources, imageOf s = path → ∃ fault, outcome a m s = .error fault) :
    (task.installedAll a m sources).file? path = m.file? path := by
  induction sources using List.reverseRecOn with
  | nil => rfl
  | append_singleton sources s ih =>
    rw [← ih fun s' hs' => h s' (List.mem_append_left _ hs'), installedAll_concat]
    by_cases himage : imageOf s = path
    · obtain ⟨fault, hfault⟩ := h s List.mem_concat_self himage
      rw [installed_of_error hfault]
    · exact file?_installed_of_ne (Ne.symm himage)

/-- A source that has an image finds it at its own path: the sources behind it put theirs somewhere
else, or are the same source again. -/
theorem file?_installedAll_of_ok {code : Bytes} (hsources : ∀ s ∈ sources, isSource s)
    (hs : s ∈ sources) (hcode : outcome a m s = .ok code) :
    (task.installedAll a m sources).file? (imageOf s) = some (task.layout.bytes code) := by
  induction sources using List.reverseRecOn with
  | nil => cases hs
  | append_singleton sources s' ih =>
    rw [installedAll_concat]
    by_cases heq : s = s'
    · subst heq
      rw [installed, hcode]
      exact PathMap.file?_put_self
    · have hmem : s ∈ sources := by simpa [heq] using hs
      have hne : imageOf s ≠ imageOf s' := fun himage =>
        heq (imageOf_injective (hsources s hs) (hsources s' List.mem_concat_self) himage)
      rw [file?_installed_of_ne hne]
      exact ih (fun t ht => hsources t (List.mem_append_left _ ht)) hmem

/-- **The order of the sources makes no difference**, nor does it matter how often one of them is
given. -/
theorem installedAll_congr {sources' : List Bytes} (hsources : ∀ s ∈ sources, isSource s)
    (h : ∀ s, s ∈ sources ↔ s ∈ sources') :
    task.installedAll a m sources = task.installedAll a m sources' := by
  have hsources' : ∀ s ∈ sources', isSource s := fun s hs => hsources s ((h s).mpr hs)
  have hfile : (task.installedAll a m sources).file? = (task.installedAll a m sources').file? := by
    funext path
    by_cases hcode : ∃ s ∈ sources, imageOf s = path ∧ ∃ code, outcome a m s = .ok code
    · obtain ⟨s, hs, rfl, code, hcode⟩ := hcode
      rw [file?_installedAll_of_ok hsources hs hcode,
        file?_installedAll_of_ok hsources' ((h s).mp hs) hcode]
    · have herror : ∀ s ∈ sources, imageOf s = path → ∃ fault, outcome a m s = .error fault := by
        intro s hs himage
        cases houtcome : outcome a m s with
        | error fault => exact ⟨fault, rfl⟩
        | ok code => exact absurd ⟨s, hs, himage, code, houtcome⟩ hcode
      rw [file?_installedAll_of_error herror,
        file?_installedAll_of_error fun s hs => herror s ((h s).mpr hs)]
  have hrefusal : (task.installedAll a m sources).refusal =
      (task.installedAll a m sources').refusal := by
    rw [refusal_installedAll, refusal_installedAll]
  exact PathMap.mk.injEq .. ▸ ⟨hfile, hrefusal⟩

/-! ### All paths -/

/-- What is reported of the sources that failed. -/
def report : List SourceError → Option CommandError
  | [] => none
  | e :: rest => some (.sources (e :: rest))

/-- **Assembling the sources among some paths** puts the images of those that have one into the
store, and reports the others. -/
theorem assembleAll_spec (ha : task.assembler = .ok a) (ho : task.output = [])
    (hsome : ∃ s ∈ paths, isSource s) (p : Progress PathMap) :
    (task.assembleAll p paths).1.store = task.installedAll a p.store (paths.filter isSource) ∧
      (task.assembleAll p paths).2 =
        report ((paths.filter isSource).filterMap (failure? a p.store)) := by
  obtain ⟨s, hs, hsource⟩ := hsome
  have hsources : ∀ s ∈ paths.filter isSource, isSource s := fun _ hs => (List.mem_filter.mp hs).2
  have hempty : (paths.filter isSource).isEmpty = false := by
    rw [List.isEmpty_eq_false_iff]
    exact List.ne_nil_of_mem (List.mem_filter.mpr ⟨hs, hsource⟩)
  have houtput : task.output.isEmpty = true := by
    rw [ho]
    rfl
  obtain ⟨hstore, herrors⟩ := assembleEach_spec
    { p with events := p.events ++ (paths.filter (!isSource ·)).map .skipped }
    ha ho hsources (fun _ _ => rfl)
  rw [installedAll, ← hstore, ← herrors]
  simp only [assembleAll, hempty, houtput, Bool.not_true, Bool.false_and, Bool.false_eq_true,
    if_false]
  generalize task.assembleEach (_ : Progress PathMap) _ = each
  obtain ⟨after, _ | ⟨e, rest⟩⟩ := each <;> exact ⟨rfl, rfl⟩

theorem report_eq_none_iff {errors : List SourceError} : report errors = none ↔ errors = [] := by
  cases errors <;> simp [report]

theorem report_of_ne_nil {errors : List SourceError} (h : errors ≠ []) :
    report errors = some (.sources errors) := by
  cases errors with
  | nil => exact absurd rfl h
  | cons e rest => rfl

theorem failure?_eq_none_iff : failure? a m s = none ↔ ∃ code, outcome a m s = .ok code := by
  rw [failure?]
  cases outcome a m s <;> simp

/-- The errors of sources stand in the order of the sources, one for each that fails. -/
theorem map_path_failures (sources : List Bytes) :
    (sources.filterMap (failure? a m)).map SourceError.path =
      sources.filter fun s => !(outcome a m s).isOk := by
  induction sources with
  | nil => rfl
  | cons s rest ih =>
    rw [List.filterMap_cons, List.filter_cons, failure?]
    cases outcome a m s with
    | error fault => exact congrArg (s :: ·) ih
    | ok code => exact ih

/-- A source that fails among others is reported in the same way when it is assembled alone. -/
theorem assembleAll_alone (ha : task.assembler = .ok a) (ho : task.output = [])
    (p : Progress PathMap) {e : SourceError} (hs : isSource s) (he : failure? a p.store s = some e) :
    (task.assembleAll p [e.path]).2 = some (.sources [e]) := by
  have hpath : e.path = s := by
    rw [failure?] at he
    split at he
    · exact (Option.some.inj he) ▸ rfl
    · cases he
  have hsome : ∃ s' ∈ [s], isSource s' := ⟨s, List.mem_singleton.mpr rfl, hs⟩
  rw [hpath, (assembleAll_spec ha ho hsome p).2, List.filter_cons_of_pos hs, List.filter_nil,
    List.filterMap_cons_some he, List.filterMap_nil]
  rfl

/-- **The sources among some paths are independent of each other**, when they are assembled from a
store by an assembler. -/
structure Independent (task : Task) (a : Assembler) (p : Progress PathMap) (paths : List Bytes) :
    Prop where
  /-- The image of a source that has code is made from the code. -/
  image (s code : Bytes) : s ∈ paths → isSource s → outcome a p.store s = .ok code →
    (task.assembleAll p paths).1.store.file? (imageOf s) = some (task.layout.bytes code)
  /-- Every file that is no such image is left alone. -/
  frame (path : Bytes) :
    (∀ s ∈ paths, isSource s → imageOf s = path → ∃ fault, outcome a p.store s = .error fault) →
    (task.assembleAll p paths).1.store.file? path = p.store.file? path
  /-- In particular all sources are. -/
  source (s : Bytes) : isSource s →
    (task.assembleAll p paths).1.store.file? s = p.store.file? s
  /-- So is what stands at the path of the image of a source that fails. -/
  earlier (s : Bytes) (fault : SourceFault) : isSource s → outcome a p.store s = .error fault →
    (task.assembleAll p paths).1.store.file? (imageOf s) = p.store.file? (imageOf s)
  /-- There is no error just if all sources have code. -/
  accepted : (task.assembleAll p paths).2 = none ↔
    ∀ s ∈ paths, isSource s → ∃ code, outcome a p.store s = .ok code
  /-- Otherwise there is an error for each source that fails, in the order of the paths: the error
  that is reported when the source is assembled alone. -/
  refused : (task.assembleAll p paths).2 ≠ none → ∃ errors,
    (task.assembleAll p paths).2 = some (.sources errors) ∧
      errors.map SourceError.path =
        paths.filter (fun s => isSource s && !(outcome a p.store s).isOk) ∧
      ∀ e ∈ errors, (task.assembleAll p [e.path]).2 = some (.sources [e])
  /-- The images of different sources stand at different paths. -/
  distinct (s s' : Bytes) : isSource s → isSource s' → s ≠ s' → imageOf s ≠ imageOf s'
  /-- No image stands at the path of a source. -/
  apart (s : Bytes) : isSource s → isSource (imageOf s) = false
  /-- The order of the paths makes no difference to the store. -/
  permuted (paths' : List Bytes) : paths.Perm paths' →
    (task.assembleAll p paths').1.store = (task.assembleAll p paths).1.store

/-- **Sources are assembled independently of each other**, if one is given, the definitions are
complete, and every image stands beside its source. -/
theorem assembleAll_independent (task : Task) (p : Progress PathMap) (paths : List Bytes)
    (hsome : ∃ s ∈ paths, isSource s) (ho : task.output = [])
    (hdefinitions : ∀ d ∈ task.definitions, d.isComplete) :
    ∃ a, task.assembler = .ok a ∧ task.Independent a p paths := by
  obtain ⟨a, ha⟩ : ∃ a, task.assembler = .ok a := exists_define _ hdefinitions
  obtain ⟨hstore, hreport⟩ := assembleAll_spec ha ho hsome p
  have hsources : ∀ s ∈ paths.filter isSource, isSource s := fun _ hs => (List.mem_filter.mp hs).2
  have hframe (path : Bytes) (h : ∀ s ∈ paths, isSource s → imageOf s = path →
      ∃ fault, outcome a p.store s = .error fault) :
      (task.assembleAll p paths).1.store.file? path = p.store.file? path := by
    rw [hstore]
    exact file?_installedAll_of_error fun s hs =>
      h s (List.mem_filter.mp hs).1 (List.mem_filter.mp hs).2
  refine ⟨a, ha, ?_, hframe, ?_, ?_, ?_, ?_, ?_, ?_, ?_⟩
  · intro s code hs hsource hcode
    rw [hstore]
    exact file?_installedAll_of_ok hsources (List.mem_filter.mpr ⟨hs, hsource⟩) hcode
  · intro s hsource
    refine hframe s fun s' _ _ himage => ?_
    rw [← himage, isSource_imageOf] at hsource
    cases hsource
  · intro s fault hsource hfault
    refine hframe _ fun s' _ hsource' himage => ⟨fault, ?_⟩
    rw [imageOf_injective hsource' hsource himage, hfault]
  · rw [hreport, report_eq_none_iff, List.filterMap_eq_nil_iff]
    simp only [List.mem_filter, failure?_eq_none_iff, and_imp]
  · intro herror
    rw [hreport, ne_eq, report_eq_none_iff] at herror
    refine ⟨_, hreport.trans (report_of_ne_nil herror), ?_, ?_⟩
    · rw [map_path_failures, List.filter_filter]
      simp only [Bool.and_comm]
    · intro e he
      obtain ⟨s, hs, hfailure⟩ := List.mem_filterMap.mp he
      exact assembleAll_alone ha ho p (hsources s hs) hfailure
  · exact fun s s' hs hs' hne himage => hne (imageOf_injective hs hs' himage)
  · exact fun s _ => isSource_imageOf s
  · intro paths' hperm
    have hsome' : ∃ s ∈ paths', isSource s := by
      obtain ⟨s, hs, hsource⟩ := hsome
      exact ⟨s, hperm.mem_iff.mp hs, hsource⟩
    rw [hstore, (assembleAll_spec ha ho hsome' p).1]
    exact (installedAll_congr hsources fun s => (hperm.filter isSource).mem_iff).symm

/-- Of these sources one is given twice, one is missing, and one jumps to a label that is nowhere and
has an image from earlier.  Only the image of the first is new, and the other two are reported; in
another order the files are the same. -/
theorem independent_of_failing :
    ∃ (task : Task) (a : Assembler) (p : Progress PathMap) (good bad missing other : Bytes),
      let paths := [good, missing, other, bad, good]
      let files := (task.assembleAll p paths).1.store.file?
      task.assembler = .ok a ∧ task.definitions.length = 1 ∧
      outcome a p.store good = .ok [0x11, 0x00] ∧
      outcome a p.store missing = .error (.file ⟨"open", [missing], .notFound⟩) ∧
      (outcome a p.store bad).isOk = false ∧ p.store.file? (imageOf bad) = some [0xF4] ∧
      task.Independent a p paths ∧
      files (imageOf good) = some [0x11, 0x00, 0xFF, 0xAB] ∧ files (imageOf bad) = some [0xF4] ∧
      files (imageOf missing) = none ∧ files (imageOf other) = none ∧
      files good = some (Bytes.ofString "offset BASE 1") ∧
      files bad = some (Bytes.ofString "jmp away") ∧
      (∃ errors, (task.assembleAll p paths).2 = some (.sources errors) ∧
        errors.map SourceError.path = [missing, bad]) ∧
      (task.assembleAll p [bad, good, good, other, missing]).1.store.file? = files := by
  let good := Bytes.ofString "good.bit"
  let bad := Bytes.ofString "bad.bit"
  let missing := Bytes.ofString "missing.bit"
  let other := Bytes.ofString "other.txt"
  let task : Task :=
    { settings := {}, layout := { size := 4, signature := [0xAB], fill := 0xFF }, origin := 0
      strict := false, definitions := [⟨Bytes.ofString "BASE=0x10"⟩], output := []
      listing := false, verbose := false }
  let a : Assembler := { predefines := [⟨Bytes.ofString "BASE", Bytes.ofString "0x10"⟩] }
  let p : Progress PathMap :=
    { store := .ofEntries
        [(good, Bytes.ofString "offset BASE 1"), (bad, Bytes.ofString "jmp away"),
          (Bytes.ofString "bad.bin", [0xF4])] }
  have ha : task.assembler = .ok a := by
    simp only [task, assembler, Settings.apply, Settings.sortedDefines, List.mergeSort_nil]
    rfl
  have hgood : outcome a p.store good = .ok [0x11, 0x00] := rfl
  have hmissing : outcome a p.store missing = .error (.file ⟨"open", [missing], .notFound⟩) := rfl
  have hbad : (outcome a p.store bad).isOk = false := rfl
  have hearlier : p.store.file? (imageOf bad) = some [0xF4] := rfl
  have hother : ∀ s ∈ [good, missing, other, bad, good],
      isSource s → imageOf s ≠ imageOf other := by decide
  have hbytes : task.layout.bytes [0x11, 0x00] = [0x11, 0x00, 0xFF, 0xAB] := by decide
  obtain ⟨b, hb, hindependent⟩ := assembleAll_independent task p [good, missing, other, bad, good]
    ⟨good, List.mem_cons_self, by decide⟩ rfl (by decide)
  obtain rfl : a = b := Except.ok.inj (ha.symm.trans hb)
  refine ⟨task, a, p, good, bad, missing, other, ha, rfl, hgood, hmissing, hbad, hearlier,
    hindependent, ?_, ?_, ?_, ?_, ?_, ?_, ?_, ?_⟩
  · rw [← hbytes]
    exact hindependent.image good _ List.mem_cons_self (by decide) hgood
  · exact (hindependent.earlier bad _ (by decide) rfl).trans hearlier
  · rw [hindependent.earlier missing _ (by decide) hmissing]
    rfl
  · rw [hindependent.frame _ fun s hs hsource himage => absurd himage (hother s hs hsource)]
    rfl
  · rw [hindependent.source good (by decide)]
    rfl
  · rw [hindependent.source bad (by decide)]
    rfl
  · have herror : (task.assembleAll p [good, missing, other, bad, good]).2 ≠ none := by
      intro hnone
      obtain ⟨code, hcode⟩ := hindependent.accepted.mp hnone missing (by decide) (by decide)
      rw [hmissing] at hcode
      cases hcode
    obtain ⟨errors, herrors, hpaths, -⟩ := hindependent.refused herror
    exact ⟨errors, herrors, hpaths⟩
  · rw [hindependent.permuted [bad, good, good, other, missing] (by decide)]

end Task

end Command

end BootSector
