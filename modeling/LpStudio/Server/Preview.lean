import LpStudio.ChangeSet.References
import LpStudio.Lib.PathOrder

/-! # The preview server
`canonical_preview_file_path` of `lib.rs`, the request that a browser makes for a reference of a previewed page, and
when it is for a file that the reference gate has found.
-/
namespace LpStudio.Server.Preview
open Str Paths ChangeSet

/-! ## The server -/

def canonicalPreviewFilePath (path : Text) : Option Text :=
  if path.isEmpty || maxPathBytes < byteLength path || path.head? == some '/' || path.contains '\\' then none
  else
    let directoryRoute := path.getLast? == some '/'
    let base := if directoryRoute then path.dropLast else path
    if base.isEmpty || (segments base).any (fun part => part.isEmpty || part ∈ [".".toList, "..".toList]) then none
    else
      let resolved := if directoryRoute then base ++ "/index.html".toList else base
      if byteLength resolved ≤ maxPathBytes then some resolved else none

/-- The file path of a request: `preview_index` answers at the preview URL itself, `preview_file` below it. -/
def routedPath (request : Text) : Option Text :=
  canonicalPreviewFilePath (if request = [] then "index.html".toList else request)

/-! ## The browser -/

/-- URL parsing drops controls and spaces at the ends, and tabs and newlines everywhere. -/
def stripReference (reference : Text) : Text :=
  ((reference.dropWhile (·.toNat ≤ 0x20)).rdropWhile (·.toNat ≤ 0x20)).filter (· ∉ ['\t', '\n', '\r'])

/-- The path state of URL parsing on decoded segments below the preview URL; `none` where `..` leaves it. -/
def resolveUrl (directory : List Text) : List Text → Option (List Text)
  | [] => some directory
  | [segment] =>
    if segment = ['.', '.'] then
      if directory = [] then none else some (directory.dropLast ++ [[]])
    else if segment = ['.'] then some (directory ++ [[]])
    else some (directory ++ [segment])
  | segment :: next :: rest =>
    if segment = ['.', '.'] then
      if directory = [] then none else resolveUrl directory.dropLast (next :: rest)
    else if segment = ['.'] then resolveUrl directory (next :: rest)
    else resolveUrl (directory ++ [segment]) (next :: rest)

def directoryOf (sourcePath : Text) : List Text :=
  ((rsplitOnce '/' sourcePath).map fun (directory, _) => segments directory).getD []

/-- The request below the preview URL for a relative reference of the page `sourcePath`, as the router decodes it. What
the browser escapes on the way the router takes back, so that the segments are decoded here where they are written. -/
def requestPath (sourcePath reference : Text) : Option Text :=
  let path := withoutSuffix (stripReference reference)
  if path = [] then some sourcePath
  else (((segments path).mapM percentDecode).bind (resolveUrl (directoryOf sourcePath))).map (['/'].intercalate)

/-- The request for a reference is mapped to a file of the site. -/
def Served (files : Files) (sourcePath reference : Text) : Prop :=
  ∃ request path, requestPath sourcePath reference = some request ∧ routedPath request = some path ∧ path ∈ files

instance (files : Files) (sourcePath reference : Text) : Decidable (Served files sourcePath reference) :=
  decidable_of_iff (((requestPath sourcePath reference).bind routedPath).any (files.contains ·) = true) (by
    simp only [Option.any_eq_true, Option.bind_eq_some_iff, Std.ExtTreeMap.contains_iff_mem, Served]
    constructor
    · rintro ⟨path, ⟨request, hrequest, hpath⟩, hmem⟩
      exact ⟨request, path, hrequest, hpath, hmem⟩
    · rintro ⟨request, path, hrequest, hpath, hmem⟩
      exact ⟨path, ⟨request, hrequest, hpath⟩, hmem⟩)

/-! ## Where they agree -/

/-- A relative reference, trimmed alike, without doubled slashes, in which no escape stands for a slash. -/
structure Plain (reference : Text) : Prop where
  trimmed : withoutSuffix (stripReference reference) = withoutSuffix (trim reference)
  relative : (withoutSuffix (trim reference)).head? ≠ some '/'
  unschemed : ':' ∉ withoutSuffix (trim reference)
  escapes : ∀ decoded, percentDecode (withoutSuffix (trim reference)) = some decoded →
    (segments (withoutSuffix (trim reference))).mapM percentDecode = some (segments decoded) ∧
      [] ∉ (segments decoded).dropLast

/-- A path that ends in a slash, or in a segment of dots. -/
def isDirectoryForm (names : List Text) : Bool :=
  names.getLast?.any (· ∈ [[], ".".toList, "..".toList])

/-- The file that a decoded reference spells: the index of a directory where it ends in a slash. -/
def spelledFile (sourcePath decoded : Text) : Option Text :=
  (pushSegments (directoryOf sourcePath) (segments decoded)).map fun names =>
    ['/'].intercalate (if isDirectoryForm (segments decoded) then names ++ ["index.html".toList] else names)

/-- The site has the file under the very path that the reference spells. -/
def Spelled (files : Files) (sourcePath reference : Text) : Prop :=
  ∃ decoded path, percentDecode (withoutSuffix (trim reference)) = some decoded ∧
    spelledFile sourcePath decoded = some path ∧ path ∈ files

/-! ## Resolution -/

theorem resolveUrl_pushSegments {directory names : List Text} (hdense : [] ∉ names.dropLast) (hne : names ≠ []) :
    resolveUrl directory names = (pushSegments directory names).map fun resolved =>
      if isDirectoryForm names then resolved ++ [[]] else resolved := by
  induction names generalizing directory with
  | nil => exact absurd rfl hne
  | cons segment rest ih =>
    cases rest with
    | nil =>
      by_cases hup : segment = ['.', '.']
      · subst hup
        by_cases hdirectory : directory = []
        · simp [resolveUrl, pushSegments, hdirectory]
        · simp [resolveUrl, pushSegments, hdirectory, isDirectoryForm]
      by_cases hdot : segment = ['.']
      · subst hdot
        simp [resolveUrl, pushSegments, isDirectoryForm]
      by_cases hempty : segment = []
      · subst hempty
        simp [resolveUrl, pushSegments, isDirectoryForm]
      · simp [resolveUrl, pushSegments, isDirectoryForm, hup, hdot, hempty]
    | cons next rest =>
      have hsegment : segment ≠ [] := fun h => hdense (by simp [h])
      have hrest : [] ∉ (next :: rest).dropLast := fun h => hdense (by simp [h])
      have hform : isDirectoryForm (segment :: next :: rest) = isDirectoryForm (next :: rest) := by
        simp [isDirectoryForm]
      rw [hform]
      by_cases hup : segment = ['.', '.']
      · subst hup
        by_cases hdirectory : directory = []
        · simp [resolveUrl, pushSegments, hdirectory]
        · rw [resolveUrl, if_pos rfl, if_neg hdirectory, ih hrest (List.cons_ne_nil _ _)]
          simp [pushSegments, hdirectory]
      by_cases hdot : segment = ['.']
      · subst hdot
        rw [resolveUrl, if_neg hup, if_pos rfl, ih hrest (List.cons_ne_nil _ _)]
        simp [pushSegments]
      · rw [resolveUrl, if_neg hup, if_neg hdot, ih hrest (List.cons_ne_nil _ _)]
        simp [pushSegments, hup, hdot, hsegment]

/-- What a reference that ends in a name leads to ends in this name. -/
theorem pushSegments_last {directory names resolved : List Text} (h : pushSegments directory names = some resolved)
    (hform : isDirectoryForm names = false) (hne : names ≠ []) :
    ∃ init name, resolved = init ++ [name] ∧ name ∈ names ∧ name ≠ [] := by
  induction names generalizing directory with
  | nil => exact absurd rfl hne
  | cons segment rest ih =>
    cases rest with
    | nil =>
      simp only [isDirectoryForm, List.getLast?_singleton, Option.any_some, decide_eq_false_iff_not, List.mem_cons,
        List.not_mem_nil, or_false, not_or] at hform
      obtain ⟨hempty, hdot, hup⟩ := hform
      change segment ≠ ['.'] at hdot
      change segment ≠ ['.', '.'] at hup
      rw [pushSegments, if_neg (not_or.mpr ⟨hempty, hdot⟩), if_neg hup, pushSegments] at h
      exact ⟨directory, segment, (Option.some.inj h).symm, List.mem_singleton_self segment, hempty⟩
    | cons next rest =>
      have hrest : isDirectoryForm (next :: rest) = false := by
        rw [← hform]
        simp [isDirectoryForm]
      have hnext : ∃ directory', pushSegments directory' (next :: rest) = some resolved := by
        rw [pushSegments] at h
        split at h
        · exact ⟨_, h⟩
        split at h
        · split at h
          · cases h
          · exact ⟨_, h⟩
        · exact ⟨_, h⟩
      obtain ⟨directory', hnext⟩ := hnext
      obtain ⟨init, name, heq, hmem, hname⟩ := ih hnext hrest (List.cons_ne_nil _ _)
      exact ⟨init, name, heq, List.mem_cons_of_mem segment hmem, hname⟩

/-! ## Routes -/

theorem validatePath_ok {K : Crates} {path : Text} (h : validatePath K path = .ok ()) :
    path ≠ [] ∧ byteLength path ≤ maxPathBytes ∧ path.head? ≠ some '/' ∧ path.contains '\\' = false ∧
      ∀ name ∈ segments path, name ≠ [] ∧ name ∉ [".".toList, "..".toList] := by
  unfold validatePath at h
  split at h
  · cases h
  next hpath =>
  split at h
  · cases h
  split at h
  · cases h
  next hsegments =>
  simp only [Bool.or_eq_true, not_or, Bool.not_eq_true, List.isEmpty_iff, decide_eq_true_eq, beq_iff_eq] at hpath
  obtain ⟨⟨⟨⟨⟨hempty, hlength⟩, hhead⟩, hback⟩, -⟩, -⟩ := hpath
  refine ⟨by simpa using hempty, by simpa using hlength, by simpa using hhead, hback, fun name hname => ?_⟩
  have hbad := List.any_eq_false.mp (Bool.eq_false_of_not_eq_true hsegments) name hname
  simp only [badSegment, Bool.or_eq_true, not_or, Bool.not_eq_true, decide_eq_true_eq, List.isEmpty_iff] at hbad
  obtain ⟨⟨⟨⟨hnil, hdots⟩, -⟩, -⟩, -⟩ := hbad
  exact ⟨by simpa using hnil, hdots⟩

/-- What the server demands of a path before it looks at the slash at its end. -/
theorem guard_false {path : Text} (hempty : path ≠ []) (hlength : byteLength path ≤ maxPathBytes)
    (hhead : path.head? ≠ some '/') (hback : path.contains '\\' = false) :
    (path.isEmpty || decide (maxPathBytes < byteLength path) || path.head? == some '/' || path.contains '\\') = false := by
  rw [hback, Bool.or_false, Bool.or_eq_false_iff, Bool.or_eq_false_iff]
  exact ⟨⟨by simpa using hempty, by simpa using hlength⟩, by simpa using hhead⟩

theorem parts_false {path : Text} (hnames : ∀ name ∈ segments path, name ≠ [] ∧ name ∉ [".".toList, "..".toList]) :
    (segments path).any (fun part => part.isEmpty || part ∈ [".".toList, "..".toList]) = false := by
  rw [List.any_eq_false]
  intro name hname
  rw [Bool.or_eq_true, List.isEmpty_iff, decide_eq_true_eq, not_or]
  exact hnames name hname

theorem last_of_join {init : List Text} {name : Text} (hname : name ≠ []) :
    (['/'].intercalate (init ++ [name])).getLast? = name.getLast? := by
  change (PathOrder.join '/' (init ++ [name])).getLast? = name.getLast?
  cases init with
  | nil => rw [List.nil_append, PathOrder.join_singleton]
  | cons first init =>
    obtain ⟨c, cs, rfl⟩ := List.exists_cons_of_ne_nil hname
    rw [PathOrder.join_concat '/' (List.cons_ne_nil _ _), List.getLast?_append, List.getLast?_cons_cons]
    cases hlast : (c :: cs).getLast? with
    | none => simp at hlast
    | some last => rfl

/-- A path that ends in a name ends in no slash. -/
theorem last_ne_slash {init : List Text} {name : Text} (hname : name ≠ []) (hslash : '/' ∉ name) :
    (['/'].intercalate (init ++ [name])).getLast? ≠ some '/' := by
  rw [last_of_join hname]
  intro h
  exact hslash (List.mem_of_getLast? h)

section
variable {K : Crates} {path base resolved : Text}

theorem valid_last (h : validatePath K path = .ok ()) : path.getLast? ≠ some '/' := by
  obtain ⟨-, -, -, -, hnames⟩ := validatePath_ok h
  obtain ⟨init, name, heq⟩ := List.eq_nil_or_concat (segments path) |>.resolve_left (List.splitOn_ne_nil _ _)
  have hmem : name ∈ segments path := by simp [heq]
  have hjoin : ['/'].intercalate (init ++ [name]) = path := by
    rw [← List.concat_eq_append, ← heq]
    exact List.intercalate_splitOn '/'
  rw [← hjoin]
  exact last_ne_slash (hnames name hmem).1 (slash_not_mem_segments hmem)

/-- The server maps the path of a file to itself. -/
theorem canonical_of_valid (h : validatePath K path = .ok ()) : canonicalPreviewFilePath path = some path := by
  obtain ⟨hempty, hlength, hhead, hback, hnames⟩ := validatePath_ok h
  have hroute : (path.getLast? == some '/') = false := by simpa using valid_last h
  simp only [canonicalPreviewFilePath, guard_false hempty hlength hhead hback, hroute, Bool.false_eq_true, ↓reduceIte,
    List.isEmpty_iff, parts_false hnames, Bool.or_false, hempty, hlength]

/-- A path behind which a slash stands is mapped to the index of the directory. -/
theorem canonical_index (hbase : base ≠ []) (h : validatePath K (base ++ "/index.html".toList) = .ok ()) :
    canonicalPreviewFilePath (base ++ ['/']) = some (base ++ "/index.html".toList) := by
  obtain ⟨-, hlength, hhead, hback, hnames⟩ := validatePath_ok h
  obtain ⟨c, cs, rfl⟩ := List.exists_cons_of_ne_nil hbase
  have hshort : byteLength (c :: cs ++ ['/']) ≤ maxPathBytes := by
    refine le_trans ?_ hlength
    simp only [byteLength, encode, List.flatMap_append, List.length_append]
    have : (['/'].flatMap String.utf8EncodeChar).length ≤ ("/index.html".toList.flatMap String.utf8EncodeChar).length := by
      decide
    omega
  have hback' : (c :: cs ++ ['/']).contains '\\' = false := by
    rw [List.contains_eq_any_beq, List.any_append, Bool.or_eq_false_iff] at hback ⊢
    exact ⟨hback.1, by decide⟩
  have hsegments : segments (c :: cs ++ "/index.html".toList) = segments (c :: cs) ++ ["index.html".toList] := by
    change (c :: cs ++ '/' :: "index.html".toList).splitOn '/' = _
    rw [List.splitOn_append_cons_self]
    rfl
  have hparts := @parts_false (c :: cs) fun name hname =>
    hnames name (by rw [hsegments]; exact List.mem_append_left _ hname)
  have hroute : ((c :: cs ++ ['/']).getLast? == some '/') = true := by
    rw [List.getLast?_concat]
    rfl
  have hdrop : (c :: cs ++ ['/']).dropLast = c :: cs := List.dropLast_concat
  have hguard := @guard_false (c :: cs ++ ['/']) (List.cons_ne_nil _ _) hshort hhead hback'
  simp only [canonicalPreviewFilePath, hguard, hroute, hdrop, Bool.false_eq_true, ↓reduceIte, List.isEmpty_cons, hparts,
    Bool.or_false, hlength]

/-- What a path is mapped to: itself, or the index of the directory where a slash ends it. -/
theorem canonical_cases (h : canonicalPreviewFilePath path = some resolved) :
    (path.getLast? ≠ some '/' ∧ resolved = path) ∨
      (path.getLast? = some '/' ∧ resolved = path.dropLast ++ "/index.html".toList) := by
  unfold canonicalPreviewFilePath at h
  split at h
  · cases h
  by_cases hlast : path.getLast? = some '/'
  · simp only [hlast, beq_self_eq_true, ↓reduceIte] at h
    split at h
    · cases h
    · split at h
      · exact .inr ⟨hlast, (Option.some.inj h).symm⟩
      · cases h
  · have hroute : (path.getLast? == some '/') = false := by simpa using hlast
    simp only [hroute, Bool.false_eq_true, ↓reduceIte] at h
    split at h
    · cases h
    · split at h
      · exact .inl ⟨hlast, (Option.some.inj h).symm⟩
      · cases h

end

/-! ## Agreement -/

section
variable {K : Crates} {files : Files} {sourcePath reference resolved : Text}

/-- What the gate has read of an accepted local reference. -/
theorem resolveLocalReference_ok (h : resolveLocalReference K sourcePath reference = .ok (some resolved)) :
    ∃ decoded, percentDecode (withoutSuffix (trim reference)) = some decoded ∧
      ((decoded.head? ≠ some '/') → ∃ names, pushSegments (directoryOf sourcePath) (segments decoded) = some names) := by
  simp only [resolveLocalReference] at h
  split at h
  · cases h
  split at h
  · cases h
  split at h
  · cases h
  · next found hfound =>
    obtain ⟨decoded, hdecoded, hresolve⟩ := Option.bind_eq_some_iff.mp hfound
    refine ⟨decoded, hdecoded, fun hhead => ?_⟩
    have hsame : decoded.dropWhile (· == '/') = decoded := by
      cases decoded with
      | nil => rfl
      | cons c cs =>
        rw [List.dropWhile_cons_of_neg]
        simpa using hhead
    simp only [resolvePath, if_neg hhead, hsame] at hresolve
    obtain ⟨names, hnames, -⟩ := Option.map_eq_some_iff.mp hresolve
    exact ⟨names, hnames⟩

/-- A text that begins with a slash has an empty first segment. -/
theorem head_ne_slash {decoded : Text} (hdense : [] ∉ (segments decoded).dropLast) : decoded.head? ≠ some '/' := by
  intro h
  obtain ⟨rest, rfl⟩ : ∃ rest, decoded = '/' :: rest := by
    cases decoded with
    | nil => cases h
    | cons c cs =>
      obtain rfl := Option.some.inj h
      exact ⟨cs, rfl⟩
  refine hdense ?_
  have hsplit : segments ('/' :: rest) = [] :: rest.splitOn '/' := by
    change ([] ++ '/' :: rest).splitOn '/' = _
    rw [List.splitOn_append_cons_self]
    rfl
  rw [hsplit]
  obtain ⟨name, names, hnames⟩ := List.exists_cons_of_ne_nil (List.splitOn_ne_nil '/' rest)
  rw [hnames, List.dropLast_cons_cons]
  exact List.mem_cons_self

end

/-- The preview server answers the request for a plain reference that the gate accepts with a file of the site exactly
if the site has a file under the path that the reference spells, directly or, where it ends in a slash, as the index
of the directory. -/
theorem reference_served_iff (K : Crates) (files : Files) (sourcePath reference resolved : Text)
    (hsite : ∀ path ∈ files, validatePath K path = .ok ()) (hsource : sourcePath ∈ files)
    (hgate : resolveLocalReference K sourcePath reference = .ok (some resolved)) (hplain : Plain reference) :
    Served files sourcePath reference ↔
      withoutSuffix (trim reference) = [] ∨ Spelled files sourcePath reference := by
  by_cases hpage : withoutSuffix (trim reference) = []
  · refine iff_of_true ⟨sourcePath, sourcePath, ?_, ?_, hsource⟩ (.inl hpage)
    · rw [requestPath, hplain.trimmed, if_pos hpage]
    · rw [routedPath, if_neg (validatePath_ok (hsite _ hsource)).1]
      exact canonical_of_valid (hsite _ hsource)
  obtain ⟨decoded, hdecoded, hnames⟩ := resolveLocalReference_ok hgate
  obtain ⟨hsegments, hdense⟩ := hplain.escapes decoded hdecoded
  obtain ⟨names, hnames⟩ := hnames (head_ne_slash hdense)
  have hne : segments decoded ≠ [] := List.splitOn_ne_nil _ _
  have hrequest : requestPath sourcePath reference = some (['/'].intercalate
      (if isDirectoryForm (segments decoded) then names ++ [[]] else names)) := by
    rw [requestPath, hplain.trimmed, if_neg hpage, hsegments, Option.bind_some, resolveUrl_pushSegments hdense hne, hnames]
    rfl
  have hspelled : spelledFile sourcePath decoded = some (['/'].intercalate
      (if isDirectoryForm (segments decoded) then names ++ ["index.html".toList] else names)) := by
    rw [spelledFile, hnames]
    rfl
  -- what the server makes of the request is the file that the reference spells
  have hserved : ∀ path, path ∈ files ∧ routedPath (['/'].intercalate
        (if isDirectoryForm (segments decoded) then names ++ [[]] else names)) = some path ↔
      path ∈ files ∧ ['/'].intercalate
        (if isDirectoryForm (segments decoded) then names ++ ["index.html".toList] else names) = path := by
    intro path
    refine and_congr_right fun hpath => ?_
    cases hform : isDirectoryForm (segments decoded) with
    | true =>
      simp only [↓reduceIte]
      by_cases hroot : names = []
      · subst hroot
        have hindex : routedPath (['/'].intercalate ([] ++ [[]])) = some "index.html".toList := by decide
        rw [hindex, Option.some.injEq]
        rfl
      · have hjoin : ∀ name, ['/'].intercalate (names ++ [name]) = ['/'].intercalate names ++ '/' :: name :=
          PathOrder.join_concat '/' hroot
        have hrouted : routedPath (['/'].intercalate names ++ ['/']) =
            canonicalPreviewFilePath (['/'].intercalate names ++ ['/']) := by
          rw [routedPath, if_neg (List.append_ne_nil_of_right_ne_nil _ (List.cons_ne_nil _ _))]
        rw [hjoin, hjoin, hrouted]
        constructor
        · intro h
          rcases canonical_cases h with ⟨hlast, -⟩ | ⟨-, rfl⟩
          · exact absurd List.getLast?_concat hlast
          · rw [List.dropLast_concat]
            rfl
        · rintro rfl
          refine canonical_index (fun hempty => ?_) (hsite _ hpath)
          obtain ⟨-, -, hhead, -⟩ := validatePath_ok (hsite _ hpath)
          rw [hempty] at hhead
          exact hhead rfl
    | false =>
      simp only [Bool.false_eq_true, ↓reduceIte]
      obtain ⟨init, name, rfl, hmem, hname⟩ := pushSegments_last hnames hform hne
      have hlast := @last_ne_slash init name hname (slash_not_mem_segments hmem)
      have hrequest : ['/'].intercalate (init ++ [name]) ≠ [] := by
        intro hempty
        have hsome := @last_of_join init name hname
        rw [hempty] at hsome
        exact hname (List.getLast?_eq_none_iff.mp hsome.symm)
      rw [routedPath, if_neg hrequest]
      constructor
      · intro h
        rcases canonical_cases h with ⟨-, rfl⟩ | ⟨hslash, -⟩
        · rfl
        · exact absurd hslash hlast
      · rintro rfl
        exact canonical_of_valid (hsite _ hpath)
  constructor
  · rintro ⟨request, path, hfound, hrouted, hpath⟩
    rw [hrequest] at hfound
    cases hfound
    exact .inr ⟨decoded, path, hdecoded, hspelled.trans (congrArg some ((hserved path).mp ⟨hpath, hrouted⟩).2), hpath⟩
  · rintro (h | ⟨decoded', path, hdecoded', hfound, hpath⟩)
    · exact absurd h hpage
    · rw [hdecoded] at hdecoded'
      cases hdecoded'
      rw [hspelled] at hfound
      exact ⟨_, path, hrequest, ((hserved path).mpr ⟨hpath, Option.some.inj hfound⟩).2, hpath⟩

/-! ## A directory -/

/-- A page, and the index of a directory. -/
def docsSite : Files := ((∅ : Files).insert "index.html".toList []).insert "docs/index.html".toList []

theorem docs_plain : Plain "docs/".toList where
  trimmed := by decide
  relative := by decide
  unschemed := by decide
  escapes := by
    intro decoded h
    have hdecoded : percentDecode (withoutSuffix (trim "docs/".toList)) = some "docs/".toList := by decide
    rw [hdecoded] at h
    cases h
    decide

theorem reference_served_docs : Served docsSite "index.html".toList "docs/".toList := by
  have hgate : resolveLocalReference sampleCrates "index.html".toList "docs/".toList =
      .ok (some "docs".toList) := by
    decide
  refine (reference_served_iff sampleCrates docsSite "index.html".toList "docs/".toList "docs".toList ?_ ?_ hgate
    docs_plain).mpr (.inr ⟨"docs/".toList, "docs/index.html".toList, ?_, ?_, ?_⟩)
  · intro path hpath
    have hkeys : ∀ path ∈ docsSite.keys, validatePath sampleCrates path = .ok () := by decide
    exact hkeys path (Std.ExtTreeMap.mem_keys.mpr hpath)
  · decide
  · decide
  · decide
  · decide

/-- The gate finds the index of the directory, the server does not. -/
theorem directory_not_served :
    resolveLocalReference sampleCrates "index.html".toList "docs".toList = .ok (some "docs".toList) ∧
      present docsSite "docs".toList = true ∧ ¬Served docsSite "index.html".toList "docs".toList := by
  decide

end LpStudio.Server.Preview
