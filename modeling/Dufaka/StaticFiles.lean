import Dufaka.Lines

/-!
# Static files

The handler of the theme's files: the path of a request is cleaned, and the file system behind it
refuses directories, names that begin with a dot and `index.html`. A file is served under paths that
do not end in a slash; with one, the path is redirected. The disk is a map from paths, given by
their elements, without symbolic links.
-/

namespace Dufaka
open Text

/-! ### Paths -/

/-- One element of a path, as `path.Clean` takes it below the root. -/
def cleanStep (segs : List Text) (seg : Text) : List Text :=
  if seg = [] ∨ seg = ['.'] then segs
  else if seg = ['.', '.'] then segs.dropLast
  else segs ++ [seg]

def cleanSegs (name : Text) : List Text := (split '/' name).foldl cleanStep []

/-- `path.Clean("/" + name)`. -/
def cleanRooted (name : Text) : Text := '/' :: join ['/'] (cleanSegs name)

/-- `path.Base`. -/
def pathBase (p : Text) : Text :=
  if p = [] then ['.'] else ((split '/' p).filter (fun seg => seg ≠ [])).getLast?.getD ['/']

def hasDotSegment (p : Text) : Bool := (split '/' p).any (fun seg => seg.head? = some '.')

/-! ### The file system -/

inductive DiskEntry where
  | file (data : Text)
  | dir

abbrev Disk := List Text → Option DiskEntry

inductive OpenError where
  | notExist
  /-- The name is none that a file can have. -/
  | invalid

/-- `http.Dir.Open` below the directory `root`. -/
def Disk.dirOpen (d : Disk) (root : List Text) (name : Text) : Except OpenError DiskEntry :=
  let segs := cleanSegs name
  if segs.any (·.contains '\x00') then .error .invalid
  else match d (root ++ segs) with
    | none => .error .notExist
    | some entry => .ok entry

/-- `assetFS.Open`, as far as the contents. -/
def Disk.openAsset (d : Disk) (root : List Text) (name : Text) : Except OpenError Text :=
  let clean := cleanRooted name
  if clean = ['/'] ∨ hasDotSegment clean ∨ pathBase clean = "index.html".toList then
    .error .notExist
  else match d.dirOpen root clean with
    | .error err => .error err
    | .ok .dir => .error .notExist
    | .ok (.file data) => .ok data

/-! ### The handler -/

inductive StaticAnswer where
  | file (data : Text)
  /-- A permanent redirect, relative to the path of the request. -/
  | redirect (location : Text)
  | notFound
  | serverError

/-- `http.FileServer` over the file system, for the path `url`. What it opens is never a
directory. -/
def Disk.serveFile (d : Disk) (root : List Text) (url : Text) : StaticAnswer :=
  if "/index.html".toList.isSuffixOf url then .redirect "./".toList
  else match d.openAsset root (cleanRooted url) with
    | .error .notExist => .notFound
    | .error .invalid => .serverError
    | .ok data =>
        if url.getLast? = some '/' then
          if pathBase url = ['/'] ∨ pathBase url = ['.'] then .serverError
          else .redirect ("../".toList ++ pathBase url)
        else .file data

/-- The path as `http.FileServer` takes it. -/
def withSlash (path : Text) : Text := if path.head? = some '/' then path else '/' :: path

def Disk.staticFiles (d : Disk) (root : List Text) (path : Text) : StaticAnswer :=
  if pathBase path = "index.html".toList then .notFound else d.serveFile root (withSlash path)

/-! ### Cleaned paths -/

structure PlainSeg (seg : Text) : Prop where
  ne_nil : seg ≠ []
  ne_dot : seg ≠ ['.']
  ne_dots : seg ≠ ['.', '.']
  no_slash : '/' ∉ seg

theorem slash_notMem_split {s seg : Text} (h : seg ∈ split '/' s) : '/' ∉ seg :=
  fun hmem => (mem_of_mem_split h '/' hmem).2 rfl

theorem cleanStep_plain {segs : List Text} {seg : Text} (hsegs : ∀ s ∈ segs, PlainSeg s)
    (hseg : '/' ∉ seg) :
    ∀ s ∈ cleanStep segs seg, PlainSeg s := by
  unfold cleanStep
  split_ifs with hskip hdots
  · exact hsegs
  · exact fun s hs => hsegs s (List.mem_of_mem_dropLast hs)
  · intro s hs
    rcases List.mem_append.mp hs with hs | hs
    · exact hsegs s hs
    · obtain rfl := List.mem_singleton.mp hs
      exact ⟨fun h => hskip (Or.inl h), fun h => hskip (Or.inr h), hdots, hseg⟩

theorem foldl_cleanStep_plain {segs ls : List Text} (hsegs : ∀ s ∈ segs, PlainSeg s)
    (hls : ∀ l ∈ ls, '/' ∉ l) :
    ∀ s ∈ ls.foldl cleanStep segs, PlainSeg s := by
  induction ls generalizing segs with
  | nil => exact hsegs
  | cons l ls ih =>
      exact ih (cleanStep_plain hsegs (hls l List.mem_cons_self)) (fun k hk =>
        hls k (List.mem_cons_of_mem l hk))

theorem cleanSegs_plain (name : Text) : ∀ s ∈ cleanSegs name, PlainSeg s := by
  apply foldl_cleanStep_plain
  · intro s hs
    cases hs
  · exact fun l hl => slash_notMem_split hl

/-- Plain elements are kept as they are. -/
theorem foldl_cleanStep {segs ls : List Text} (h : ∀ l ∈ ls, PlainSeg l) :
    ls.foldl cleanStep segs = segs ++ ls := by
  induction ls generalizing segs with
  | nil => rw [List.foldl_nil, List.append_nil]
  | cons l ls ih =>
      have hl := h l List.mem_cons_self
      have hstep : cleanStep segs l = segs ++ [l] := by
        rw [cleanStep, if_neg (not_or.mpr ⟨hl.ne_nil, hl.ne_dot⟩), if_neg hl.ne_dots]
      rw [List.foldl_cons, hstep, ih (fun k hk => h k (List.mem_cons_of_mem l hk)),
        List.append_assoc]
      rfl

theorem split_rooted {segs : List Text} (hne : segs ≠ []) (h : ∀ s ∈ segs, PlainSeg s) :
    split '/' ('/' :: join ['/'] segs) = [] :: segs := by
  have hjoin : split '/' (join ['/'] segs) = segs := split_join hne (fun s hs => (h s hs).no_slash)
  rw [split, if_pos rfl, hjoin]

theorem cleanSegs_rooted {segs : List Text} (h : ∀ s ∈ segs, PlainSeg s) :
    cleanSegs ('/' :: join ['/'] segs) = segs := by
  by_cases hne : segs = []
  · subst hne
    decide
  · rw [cleanSegs, split_rooted hne h, List.foldl_cons]
    exact foldl_cleanStep h

theorem cleanSegs_cleanRooted (name : Text) : cleanSegs (cleanRooted name) = cleanSegs name :=
  cleanSegs_rooted (cleanSegs_plain name)

theorem cleanRooted_eq_root {name : Text} : cleanRooted name = ['/'] ↔ cleanSegs name = [] := by
  constructor
  · intro h
    rw [← cleanSegs_cleanRooted, h]
    decide
  · intro h
    rw [cleanRooted, h]
    rfl

theorem hasDotSegment_cleanRooted {name : Text} :
    hasDotSegment (cleanRooted name) = true ↔ ∃ s ∈ cleanSegs name, s.head? = some '.' := by
  by_cases hne : cleanSegs name = []
  · rw [cleanRooted_eq_root.mpr hne, hne]
    exact iff_of_false (by decide) (by rintro ⟨s, hs, -⟩; cases hs)
  · rw [hasDotSegment, cleanRooted, split_rooted hne (cleanSegs_plain name), List.any_cons]
    simp

theorem pathBase_cleanRooted {name : Text} (hne : cleanSegs name ≠ []) :
    pathBase (cleanRooted name) = (cleanSegs name).getLast?.getD ['/'] := by
  have hkeep : (cleanSegs name).filter (fun seg => seg ≠ []) = cleanSegs name :=
    List.filter_eq_self.mpr (fun s hs => decide_eq_true (cleanSegs_plain name s hs).ne_nil)
  rw [pathBase, cleanRooted, if_neg (List.cons_ne_nil _ _), split_rooted hne (cleanSegs_plain name),
    List.filter_cons_of_neg (by simp), hkeep]

/-! ### What is served -/

structure Servable (segs : List Text) : Prop where
  ne_nil : segs ≠ []
  visible : ∀ s ∈ segs, s.head? ≠ some '.'
  not_index : segs.getLast? ≠ some "index.html".toList
  no_nul : ∀ s ∈ segs, '\x00' ∉ s

/-- What `assetFS` refuses by its name. -/
theorem refused_iff {name : Text} :
    (cleanRooted name = ['/'] ∨ hasDotSegment (cleanRooted name) = true ∨
        pathBase (cleanRooted name) = "index.html".toList) ↔
      cleanSegs name = [] ∨ (∃ s ∈ cleanSegs name, s.head? = some '.') ∨
        (cleanSegs name).getLast? = some "index.html".toList := by
  by_cases hne : cleanSegs name = []
  · exact iff_of_true (Or.inl (cleanRooted_eq_root.mpr hne)) (Or.inl hne)
  · have hbase : pathBase (cleanRooted name) = "index.html".toList ↔
        (cleanSegs name).getLast? = some "index.html".toList := by
      rw [pathBase_cleanRooted hne, List.getLast?_eq_some_getLast hne, Option.getD_some,
        Option.some.injEq]
    rw [cleanRooted_eq_root, hasDotSegment_cleanRooted, hbase]

theorem servable_iff {segs : List Text} : Servable segs ↔
    ¬ (segs = [] ∨ (∃ s ∈ segs, s.head? = some '.') ∨ segs.getLast? = some "index.html".toList) ∧
      segs.any (·.contains '\x00') = false := by
  constructor
  · intro h
    refine ⟨?_, ?_⟩
    · rintro (hnil | ⟨s, hs, hhead⟩ | hindex)
      · exact h.ne_nil hnil
      · exact h.visible s hs hhead
      · exact h.not_index hindex
    · rw [List.any_eq_false]
      intro s hs hnul
      exact h.no_nul s hs (List.contains_iff_mem.mp hnul)
  · rintro ⟨hshown, hnul⟩
    refine ⟨fun h => hshown (Or.inl h), fun s hs h => hshown (Or.inr (Or.inl ⟨s, hs, h⟩)),
      fun h => hshown (Or.inr (Or.inr h)), fun s hs h => ?_⟩
    exact List.any_eq_false.mp hnul s hs (List.contains_iff_mem.mpr h)

theorem openAsset_eq_ok {d : Disk} {root : List Text} {name data : Text} :
    d.openAsset root name = .ok data ↔
      Servable (cleanSegs name) ∧ d (root ++ cleanSegs name) = some (.file data) := by
  rw [servable_iff, ← refused_iff, Disk.openAsset, Disk.dirOpen, cleanSegs_cleanRooted]
  split_ifs with hrefused hnul
  · exact iff_of_false (fun h => by cases h) (fun h => h.1.1 hrefused)
  · exact iff_of_false (fun h => by cases h) (fun h => by rw [hnul] at h; cases h.1.2)
  · have hnul' : (cleanSegs name).any (·.contains '\x00') = false := by simpa using hnul
    cases d (root ++ cleanSegs name) with
    | none => exact iff_of_false (fun h => by cases h) (fun h => by cases h.2)
    | some entry =>
        cases entry with
        | dir => exact iff_of_false (fun h => by cases h) (fun h => by cases h.2)
        | file content =>
            constructor
            · intro h
              obtain rfl := Except.ok.inj h
              exact ⟨⟨hrefused, hnul'⟩, rfl⟩
            · rintro ⟨-, h⟩
              obtain rfl := DiskEntry.file.inj (Option.some.inj h)
              rfl

/-- What may not be served makes no difference. -/
theorem openAsset_congr {d d' : Disk} {root : List Text}
    (h : ∀ segs, Servable segs → d' (root ++ segs) = d (root ++ segs)) (name : Text) :
    d'.openAsset root name = d.openAsset root name := by
  unfold Disk.openAsset Disk.dirOpen
  simp only [cleanSegs_cleanRooted]
  split_ifs with hrefused hnul
  · rfl
  · rfl
  · have hserve : Servable (cleanSegs name) := by
      rw [servable_iff, ← refused_iff]
      exact ⟨hrefused, by simpa using hnul⟩
    rw [h _ hserve]

/-- Empty elements do not count. -/
theorem foldl_cleanStep_filter (segs ls : List Text) :
    ls.foldl cleanStep segs = (ls.filter (fun seg => seg ≠ [])).foldl cleanStep segs := by
  induction ls generalizing segs with
  | nil => rfl
  | cons l ls ih =>
      by_cases hl : l = []
      · have hskip : cleanStep segs l = segs := if_pos (Or.inl hl)
        rw [List.foldl_cons, hskip, List.filter_cons_of_neg (by simp [hl])]
        exact ih segs
      · rw [List.foldl_cons, List.filter_cons_of_pos (by simp [hl]), List.foldl_cons]
        exact ih _

theorem getLast?_cleanSegs {path : Text} (h : pathBase path = "index.html".toList) :
    (cleanSegs path).getLast? = some "index.html".toList := by
  have hlast : ((split '/' path).filter (fun seg => seg ≠ [])).getLast? =
      some "index.html".toList := by
    unfold pathBase at h
    split_ifs at h
    · cases h
    · cases hl : ((split '/' path).filter (fun seg => seg ≠ [])).getLast? with
      | none =>
          rw [hl] at h
          cases h
      | some seg =>
          rw [hl] at h
          exact congrArg some h
  obtain ⟨init, hinit⟩ := List.getLast?_eq_some_iff.mp hlast
  have hstep : ∀ segs, cleanStep segs "index.html".toList = segs ++ ["index.html".toList] :=
    fun _ => rfl
  rw [cleanSegs, foldl_cleanStep_filter, hinit, List.foldl_append, List.foldl_cons, List.foldl_nil,
    hstep, List.getLast?_concat]

theorem cleanSegs_withSlash (path : Text) : cleanSegs (withSlash path) = cleanSegs path := by
  unfold withSlash
  split_ifs
  · rfl
  · rw [cleanSegs, split, if_pos rfl, List.foldl_cons, cleanStep, if_pos (Or.inl rfl)]
    rfl

theorem withSlash_ne_nil (path : Text) : withSlash path ≠ [] := by
  unfold withSlash
  split_ifs with h
  · rintro rfl
    cases h
  · exact List.cons_ne_nil _ _

theorem pathBase_withSlash {path : Text} (h : path ≠ []) :
    pathBase (withSlash path) = pathBase path := by
  unfold withSlash
  split_ifs
  · rfl
  · rw [pathBase, pathBase, if_neg (List.cons_ne_nil _ _), if_neg h, split, if_pos rfl,
      List.filter_cons_of_neg (by simp)]

theorem getLast?_withSlash {path : Text} (h : path ≠ []) :
    (withSlash path).getLast? = path.getLast? := by
  unfold withSlash
  split_ifs
  · rfl
  · rw [List.getLast?_cons_of_ne_nil h]

/-- The handler answers a path of an index page before the file server would redirect it. -/
theorem not_indexPage {path : Text} (h : pathBase path ≠ "index.html".toList) :
    "/index.html".toList.isSuffixOf (withSlash path) = false := by
  rw [Bool.eq_false_iff]
  intro hsuffix
  obtain ⟨front, hfront⟩ := List.isSuffixOf_iff_suffix.mp hsuffix
  have hbase : pathBase (withSlash path) = "index.html".toList := by
    have hcons : front ++ "/index.html".toList = front ++ '/' :: "index.html".toList := rfl
    have hlast : split '/' "index.html".toList = ["index.html".toList] := by decide
    rw [pathBase, if_neg (withSlash_ne_nil path), ← hfront, hcons, split_append_cons, hlast,
      List.filter_append, List.filter_cons_of_pos (by decide), List.filter_nil,
      List.getLast?_concat, Option.getD_some]
  by_cases hnil : path = []
  · subst hnil
    revert hbase
    decide
  · rw [pathBase_withSlash hnil] at hbase
    exact h hbase

/-- The last element that is not empty, and those before it. -/
theorem split_of_pathBase {path : Text} (hne : cleanSegs path ≠ []) : ∃ init : List Text,
    (split '/' path).filter (fun seg => seg ≠ []) = init ++ [pathBase path] ∧
      '/' ∉ pathBase path ∧ pathBase path ≠ [] := by
  have hnil : path ≠ [] := by
    rintro rfl
    exact hne rfl
  have hsome : (split '/' path).filter (fun seg => seg ≠ []) ≠ [] := by
    intro hnone
    apply hne
    rw [cleanSegs, foldl_cleanStep_filter, hnone]
    rfl
  have hbase : pathBase path = ((split '/' path).filter (fun seg => seg ≠ [])).getLast hsome := by
    rw [pathBase, if_neg hnil, List.getLast?_eq_some_getLast hsome, Option.getD_some]
  obtain ⟨hmem, hkept⟩ := List.mem_filter.mp (List.getLast_mem hsome)
  rw [← hbase] at hmem hkept
  have hparts := (List.dropLast_concat_getLast hsome).symm
  rw [← hbase] at hparts
  exact ⟨_, hparts, slash_notMem_split hmem, of_decide_eq_true hkept⟩

theorem Servable.base {path : Text} (h : Servable (cleanSegs path)) :
    pathBase path ≠ "index.html".toList ∧ pathBase path ≠ ['/'] := by
  refine ⟨fun hindex => h.not_index (getLast?_cleanSegs hindex), fun hslash => ?_⟩
  obtain ⟨-, -, hno, -⟩ := split_of_pathBase h.ne_nil
  rw [hslash] at hno
  exact hno List.mem_cons_self

/-- The answer for a file that may be served. -/
theorem staticFiles_of_file {d : Disk} {root : List Text} {path data : Text}
    (hserve : Servable (cleanSegs path)) (hfile : d (root ++ cleanSegs path) = some (.file data)) :
    d.staticFiles root path =
      if path.getLast? = some '/' then
        if pathBase path = ['.'] then .serverError else .redirect ("../".toList ++ pathBase path)
      else .file data := by
  obtain ⟨hindex, hslash⟩ := hserve.base
  have hnil : path ≠ [] := by
    rintro rfl
    exact hserve.ne_nil rfl
  have hopen : d.openAsset root (cleanRooted (withSlash path)) = .ok data := by
    rw [openAsset_eq_ok, cleanSegs_cleanRooted, cleanSegs_withSlash]
    exact ⟨hserve, hfile⟩
  rw [Disk.staticFiles, if_neg hindex, Disk.serveFile, not_indexPage hindex,
    if_neg Bool.false_ne_true, hopen]
  simp only [getLast?_withSlash hnil, pathBase_withSlash hnil, hslash, false_or]

/-- Nothing else is answered with a file or redirected. -/
theorem staticFiles_of_no_file {d : Disk} {root : List Text} {path : Text}
    (h : ∀ data, ¬ (Servable (cleanSegs path) ∧ d (root ++ cleanSegs path) = some (.file data))) :
    d.staticFiles root path = .notFound ∨ d.staticFiles root path = .serverError := by
  rw [Disk.staticFiles]
  split_ifs with hindex
  · exact Or.inl rfl
  · rw [Disk.serveFile, not_indexPage hindex, if_neg Bool.false_ne_true]
    cases hopen : d.openAsset root (cleanRooted (withSlash path)) with
    | error err =>
        cases err with
        | notExist => exact Or.inl rfl
        | invalid => exact Or.inr rfl
    | ok data =>
        rw [openAsset_eq_ok, cleanSegs_cleanRooted, cleanSegs_withSlash] at hopen
        exact absurd hopen (h data)

theorem staticFiles_eq_file {d : Disk} {root : List Text} {path data : Text} :
    d.staticFiles root path = .file data ↔ Servable (cleanSegs path) ∧
      d (root ++ cleanSegs path) = some (.file data) ∧ path.getLast? ≠ some '/' := by
  by_cases hfile : ∃ data, Servable (cleanSegs path) ∧
    d (root ++ cleanSegs path) = some (.file data)
  · obtain ⟨content, hserve, hcontent⟩ := hfile
    rw [staticFiles_of_file hserve hcontent, hcontent]
    split_ifs with hslash hdot
    · exact iff_of_false (fun h => by cases h) (fun h => h.2.2 hslash)
    · exact iff_of_false (fun h => by cases h) (fun h => h.2.2 hslash)
    · simp [hserve, hslash]
  · rw [not_exists] at hfile
    refine iff_of_false (fun h => ?_) (fun h => hfile data ⟨h.1, h.2.1⟩)
    rcases staticFiles_of_no_file hfile with hno | hno
    · rw [hno] at h
      cases h
    · rw [hno] at h
      cases h

theorem staticFiles_eq_redirect {d : Disk} {root : List Text} {path location : Text} :
    d.staticFiles root path = .redirect location ↔
      (∃ data, Servable (cleanSegs path) ∧ d (root ++ cleanSegs path) = some (.file data)) ∧
        path.getLast? = some '/' ∧ pathBase path ≠ ['.'] ∧
        location = "../".toList ++ pathBase path := by
  by_cases hfile : ∃ data, Servable (cleanSegs path) ∧
    d (root ++ cleanSegs path) = some (.file data)
  · obtain ⟨content, hserve, hcontent⟩ := hfile
    rw [staticFiles_of_file hserve hcontent]
    split_ifs with hslash hdot
    · exact iff_of_false (fun h => by cases h) (fun h => h.2.2.1 hdot)
    · rw [StaticAnswer.redirect.injEq]
      constructor
      · rintro rfl
        exact ⟨⟨content, hserve, hcontent⟩, hslash, hdot, rfl⟩
      · exact fun h => h.2.2.2.symm
    · exact iff_of_false (fun h => by cases h) (fun h => hslash h.2.1)
  · refine iff_of_false (fun h => ?_) (fun h => hfile h.1)
    rw [not_exists] at hfile
    rcases staticFiles_of_no_file hfile with hno | hno
    · rw [hno] at h
      cases h
    · rw [hno] at h
      cases h

/-- Where a redirect leads: up from the slash, and back to the last element. -/
theorem cleanSegs_redirect {path : Text} (hne : cleanSegs path ≠ [])
    (hslash : path.getLast? = some '/') (hdot : pathBase path ≠ ['.'])
    (hdots : pathBase path ≠ ['.', '.']) :
    cleanSegs (path ++ ("../".toList ++ pathBase path)) = cleanSegs path := by
  obtain ⟨q, rfl⟩ := List.getLast?_eq_some_iff.mp hslash
  obtain ⟨init, hinit, hno, hsome⟩ := split_of_pathBase hne
  set base := pathBase (q ++ ['/']) with hbase
  have hq : split '/' (q ++ ['/']) = split '/' q ++ [[]] := split_append_cons '/' q []
  have hstep : ∀ segs, cleanStep segs base = segs ++ [base] := by
    intro segs
    rw [cleanStep, if_neg (not_or.mpr ⟨hsome, hdot⟩), if_neg hdots]
  have hwhole : cleanSegs (q ++ ['/']) = init.foldl cleanStep [] ++ [base] := by
    rw [cleanSegs, foldl_cleanStep_filter, hinit, List.foldl_append, List.foldl_cons,
      List.foldl_nil, hstep]
  have hclean : cleanSegs (q ++ ['/']) = (split '/' q).foldl cleanStep [] := by
    rw [cleanSegs, hq, List.foldl_append]
    rfl
  have happ : (q ++ ['/']) ++ ("../".toList ++ base) = q ++ '/' ::
      ("..".toList ++ '/' :: base) := by
    rw [List.append_assoc]
    rfl
  have hparts : split '/' ("..".toList ++ '/' :: base) = ["..".toList, base] := by
    rw [split_append_cons, split_of_notMem hno]
    rfl
  have hup : ∀ segs, cleanStep segs "..".toList = segs.dropLast := fun _ => rfl
  rw [cleanSegs, happ, split_append_cons, hparts, List.foldl_append, ← hclean, List.foldl_cons,
    List.foldl_cons, List.foldl_nil, hup, hstep, hwhole, List.dropLast_concat]

theorem Servable.plain {segs : List Text} (h : Servable segs) (hnames : ∀ s ∈ segs,
    s ≠ [] ∧ '/' ∉ s) :
    ∀ s ∈ segs, PlainSeg s := by
  intro s hs
  refine ⟨(hnames s hs).1, ?_, ?_, (hnames s hs).2⟩
  · rintro rfl
    exact h.visible _ hs rfl
  · rintro rfl
    exact h.visible _ hs rfl

/-- A request is answered with a file exactly when its cleaned path, which is below the directory,
is that of a visible one and it does not end in a slash. With a slash it is redirected, and unless
it ends in a dot element the redirect leads to the file. What is hidden in the directory, or lies
outside, changes no answer; and every visible file has a path. -/
theorem static_files_visible (d : Disk) (root : List Text) :
    (∀ path data, d.staticFiles root path = .file data ↔ Servable (cleanSegs path) ∧
      d (root ++ cleanSegs path) = some (.file data) ∧ path.getLast? ≠ some '/') ∧
    (∀ path location, d.staticFiles root path = .redirect location ↔
      (∃ data, Servable (cleanSegs path) ∧ d (root ++ cleanSegs path) = some (.file data)) ∧
        path.getLast? = some '/' ∧ pathBase path ≠ ['.'] ∧
        location = "../".toList ++ pathBase path) ∧
    (∀ path location, d.staticFiles root path = .redirect location →
      pathBase path ≠ ['.', '.'] → ∃ data, d (root ++ cleanSegs path) = some (.file data) ∧
        d.staticFiles root (path ++ location) = .file data) ∧
    (∀ d' : Disk, (∀ segs, Servable segs → d' (root ++ segs) = d (root ++ segs)) →
      ∀ path, d'.staticFiles root path = d.staticFiles root path) ∧
    ∀ segs data, Servable segs → (∀ s ∈ segs, s ≠ [] ∧ '/' ∉ s) →
      d (root ++ segs) = some (.file data) → d.staticFiles root (join ['/'] segs) = .file data := by
  refine ⟨fun _ _ => staticFiles_eq_file, fun _ _ => staticFiles_eq_redirect, ?_, ?_, ?_⟩
  · intro path location h hdots
    obtain ⟨⟨data, hserve, hfile⟩, hslash, hdot, rfl⟩ := staticFiles_eq_redirect.mp h
    refine ⟨data, hfile, ?_⟩
    rw [staticFiles_eq_file, cleanSegs_redirect hserve.ne_nil hslash hdot hdots]
    refine ⟨hserve, hfile, ?_⟩
    obtain ⟨-, -, hno, hsome⟩ := split_of_pathBase hserve.ne_nil
    rw [← List.append_assoc, List.getLast?_append_of_ne_nil _ hsome]
    exact fun hlast => hno (List.mem_of_getLast? hlast)
  · intro d' hsame path
    unfold Disk.staticFiles Disk.serveFile
    rw [openAsset_congr hsame]
  · intro segs data hserve hnames hfile
    have hplain := hserve.plain hnames
    have hsplit : split '/' (join ['/'] segs) = segs :=
      split_join hserve.ne_nil (fun s hs => (hplain s hs).no_slash)
    have hsegs : cleanSegs (join ['/'] segs) = segs := by
      rw [cleanSegs, hsplit]
      exact foldl_cleanStep hplain
    rw [staticFiles_eq_file, hsegs]
    refine ⟨hserve, hfile, fun hlast => ?_⟩
    -- a slash at the end would leave an empty element
    obtain ⟨q, hq⟩ := List.getLast?_eq_some_iff.mp hlast
    have hempty : ([] : Text) ∈ split '/' (join ['/'] segs) := by
      rw [hq, split_append_cons]
      exact List.mem_append_right _ List.mem_cons_self
    rw [hsplit] at hempty
    exact (hnames _ hempty).1 rfl

end Dufaka
