import LpStudio.Lib.Outcome
import LpStudio.Lib.Utf8
import LpStudio.StaticExport.Resolve
import LpStudio.StaticExport.StyleSheets

/-! # Local references stay in the site
What a local reference leads to is a canonical path. It depends on the part before the query and the fragment, not on how
that part is spelled, and the path can be spelled out again.
-/
namespace LpStudio.StaticExport
open Str Paths

section
variable {K : Crates} {sourcePath raw reference q p s : Text}

/-! ## What is resolved locally -/

/-- A reference that is no fragment and has neither a scheme nor a host. -/
def localForm (reference : Text) : Bool :=
  !reference.isEmpty && reference.head? != some '#' && !(reference.any isControl || reference.contains '\\') &&
    !"//".toList.isPrefixOf reference && !hasExplicitScheme reference

/-- The path that the part before the suffix leads to. -/
def localTarget (K : Crates) (sourcePath path : Text) : Option Text :=
  if path.isEmpty then some sourcePath
  else ((percentDecode path).bind (resolvePath K sourcePath)).bind fun resolved =>
    if resolved.isEmpty then some "index.html".toList
    else if validateCanonicalPath K resolved then some resolved else none

theorem toLower_eq_colon {c : Char} (h : c.toLower = ':') : c = ':' := by
  unfold Char.toLower at h
  split at h
  · next hupper =>
    have hval := congrArg UInt32.toNat (congrArg Char.val h)
    simp only [ge_iff_le, UInt32.le_iff_toNat_le] at hupper
    simp at hval hupper
    omega
  · exact h

theorem hasExplicitScheme_of_start {scheme : Text} (hletters : ∀ c ∈ scheme, isAsciiAlphabetic c)
    (h : (scheme ++ [':']).isPrefixOf (lower reference) = true) : hasExplicitScheme reference = true := by
  obtain ⟨rest, hrest⟩ := List.isPrefixOf_iff_prefix.mp h
  rw [List.append_assoc, List.singleton_append, lower] at hrest
  obtain ⟨name, more, rfl, hname, hmore⟩ := List.map_eq_append_iff.mp hrest.symm
  obtain ⟨colon, tail, rfl, hcolon, -⟩ := List.map_eq_cons_iff.mp hmore
  obtain rfl := toLower_eq_colon hcolon
  have halpha : ∀ c ∈ name, isAsciiAlphabetic c := by
    intro c hc
    refine isAsciiAlphabetic_of_lower (hletters _ ?_)
    rw [← hname]
    exact List.mem_map_of_mem hc
  have hplain : ∀ c ∈ name, (c != ':') = true := by
    intro c hc
    refine bne_iff_ne.mpr ?_
    rintro rfl
    exact absurd (halpha _ hc) (by decide)
  have hscheme : (name ++ ':' :: tail).takeWhile (· != ':') = name :=
    (takeWhile_append_stop hplain fun c hc => by rw [← Option.some.inj hc]; rfl).1
  have hboundary : name.any (fun c => c == '/' || c == '?' || c == '#') = false := by
    rw [List.any_eq_false]
    intro c hc hstop
    simp only [Bool.or_eq_true, beq_iff_eq] at hstop
    rcases hstop with (rfl | rfl) | rfl
    all_goals exact absurd (halpha _ hc) (by decide)
  simp only [hasExplicitScheme, hscheme, hboundary, List.contains_append, List.contains_cons, beq_self_eq_true,
    Bool.true_or, Bool.or_true, Bool.not_false, Bool.true_and]
  cases name with
  | nil => rfl
  | cons c cs =>
    obtain ⟨hc, hcs⟩ := List.forall_mem_cons.mp halpha
    simp only [hc, Bool.true_and, List.all_eq_true]
    intro d hd
    simp [isAsciiAlphanumeric, hcs d hd]

/-- The schemes that `resolve_reference` looks for are schemes. -/
theorem known_scheme (h : hasExplicitScheme reference = false) : ∀ scheme ∈ ["javascript:", "file:", "http:", "https:",
    "blob:", "data:", "mailto:", "tel:"], scheme.toList.isPrefixOf (lower reference) = false := by
  intro scheme hscheme
  have hall : ["javascript:", "file:", "http:", "https:", "blob:", "data:", "mailto:", "tel:"].all (fun scheme =>
      scheme.toList == scheme.toList.dropLast ++ [':'] && scheme.toList.dropLast.all isAsciiAlphabetic) = true := by
    decide
  obtain ⟨heq, hletters⟩ := Bool.and_eq_true_iff.mp (List.all_eq_true.mp hall scheme hscheme)
  refine Bool.eq_false_of_not_eq_true fun hprefix => ?_
  rw [eq_of_beq heq] at hprefix
  rw [hasExplicitScheme_of_start (List.all_eq_true.mp hletters) hprefix] at h
  cases h

theorem resolveReference_of_localForm (h : localForm (trim raw) = true) :
    resolveReference K sourcePath raw = (localTarget K sourcePath (withoutSuffix (trim raw))).elim
      (.error (.unsafeReference sourcePath)) fun q => .ok (.local q) := by
  simp only [localForm, Bool.and_eq_true, Bool.not_eq_true', bne_iff_ne] at h
  obtain ⟨⟨⟨⟨hempty, hhead⟩, hchars⟩, hhost⟩, hscheme⟩ := h
  have hknown := known_scheme hscheme
  simp only [List.forall_mem_cons] at hknown
  obtain ⟨hjavascript, hfile, hhttp, hhttps, hblob, hdata, hmailto, htel, -⟩ := hknown
  have hhead : ((trim raw).head? == some '#') = false := beq_eq_false_iff_ne.mpr hhead
  unfold resolveReference
  simp only [hempty, hhead, hchars, hhost, hscheme, hjavascript, hfile, hhttp, hhttps, hblob, hdata, hmailto, htel,
    Bool.or_false, Bool.false_eq_true, ↓reduceIte, localTarget]
  split
  · rfl
  cases hresolved : (percentDecode (withoutSuffix (trim raw))).bind (resolvePath K sourcePath) with
  | none => rfl
  | some resolved =>
    simp only [Option.bind_some]
    split
    · rfl
    split <;> rfl

theorem localForm_of_local (h : resolveReference K sourcePath raw = .ok (.local q)) : localForm (trim raw) = true := by
  have hexternal : ∀ protocolRelative, (externalReference K sourcePath (trim raw) protocolRelative).map
      ReferenceResolution.external ≠ .ok (.local q) := by
    intro protocolRelative hlocal
    obtain ⟨external, -, heq⟩ := Outcome.map_ok.mp hlocal
    cases heq
  simp only [resolveReference] at h
  split at h
  · cases h
  next hempty =>
  split at h
  · cases h
  next hchars =>
  split at h
  · cases h
  split at h
  · exact absurd h (hexternal false)
  split at h
  · exact absurd h (hexternal true)
  next hhost =>
  split at h
  · cases h
  split at h
  · cases h
  split at h
  · cases h
  next hscheme =>
  simp only [Bool.or_eq_true, not_or, Bool.not_eq_true] at hempty hchars hhost hscheme
  simp only [localForm, bne, hempty, hchars, hhost, hscheme, Bool.or_self, Bool.not_false, Bool.and_self]

theorem resolveReference_local : resolveReference K sourcePath raw = .ok (.local q) ↔
    localForm (trim raw) = true ∧ localTarget K sourcePath (withoutSuffix (trim raw)) = some q := by
  constructor
  · intro h
    have hform := localForm_of_local h
    rw [resolveReference_of_localForm hform] at h
    refine ⟨hform, ?_⟩
    cases htarget : localTarget K sourcePath (withoutSuffix (trim raw)) with
    | none =>
      rw [htarget] at h
      cases h
    | some target =>
      rw [htarget] at h
      cases h
      rfl
  · rintro ⟨hform, htarget⟩
    rw [resolveReference_of_localForm hform, htarget]
    rfl

/-! ## Escapes -/

/-- The text does not end inside an escape. -/
def wholeEscapes : Text → Bool
  | [] => true
  | '%' :: _ :: _ :: rest => wholeEscapes rest
  | '%' :: _ => false
  | _ :: rest => wholeEscapes rest

theorem percentDecodeBytes_char {c : Char} (hc : c ≠ '%') :
    percentDecodeBytes (c :: s) = (percentDecodeBytes s).map (String.utf8EncodeChar c ++ ·) := by
  rw [percentDecodeBytes]
  · intro high low rest heq
    exact absurd heq hc
  · exact hc

theorem percentDecodeBytes_escape (high low : Char) :
    percentDecodeBytes ('%' :: high :: low :: s) = (hexValue high).bind fun high => (hexValue low).bind fun low =>
      (percentDecodeBytes s).map (UInt8.ofNat (high * 16 + low) :: ·) := by
  rw [percentDecodeBytes]
  cases hexValue high with
  | none => rfl
  | some high => cases hexValue low with
    | none => rfl
    | some low => cases percentDecodeBytes s with
      | none => rfl
      | some decoded => rfl

theorem percentDecodeBytes_append (hp : wholeEscapes p = true) :
    percentDecodeBytes (p ++ s) =
      (percentDecodeBytes p).bind fun before => (percentDecodeBytes s).map (before ++ ·) := by
  induction p using wholeEscapes.induct with
  | case1 => simp [percentDecodeBytes]
  | case2 high low rest ih =>
    rw [wholeEscapes] at hp
    rw [List.cons_append, List.cons_append, List.cons_append, percentDecodeBytes_escape, percentDecodeBytes_escape, ih hp]
    cases hexValue high with
    | none => rfl
    | some high => cases hexValue low with
      | none => rfl
      | some low => cases percentDecodeBytes rest with
        | none => rfl
        | some before => cases percentDecodeBytes s <;> rfl
  | case3 rest h =>
    rw [wholeEscapes] at hp
    · cases hp
    · exact h
  | case4 c rest h hc ih =>
    rw [wholeEscapes] at hp
    · rw [List.cons_append, percentDecodeBytes_char hc, percentDecodeBytes_char hc, ih hp]
      cases percentDecodeBytes rest with
      | none => rfl
      | some before => cases percentDecodeBytes s with
        | none => rfl
        | some after => simp
    · exact h
    · exact hc

/-- An escape does not reach over a slash. -/
theorem wholeEscapes_of_slash (h : percentDecodeBytes (p ++ '/' :: s) ≠ none) : wholeEscapes p = true := by
  induction p using wholeEscapes.induct with
  | case1 => rfl
  | case2 high low rest ih =>
    rw [wholeEscapes]
    refine ih fun hnone => h ?_
    rw [List.cons_append, List.cons_append, List.cons_append, percentDecodeBytes_escape, hnone]
    cases hexValue high with
    | none => rfl
    | some high => cases hexValue low <;> rfl
  | case3 rest hshort =>
    refine absurd ?_ h
    have hslash : hexValue '/' = none := by decide
    cases rest with
    | nil => cases s with
      | nil => rfl
      | cons low s =>
        rw [List.singleton_append, percentDecodeBytes_escape, hslash]
        rfl
    | cons high rest => cases rest with
      | nil =>
        rw [List.cons_append, List.cons_append, List.nil_append, percentDecodeBytes_escape, hslash]
        cases hexValue high <;> rfl
      | cons low rest => exact absurd rfl (hshort high low rest)
  | case4 c rest hlong hc ih =>
    rw [wholeEscapes]
    · refine ih fun hnone => h ?_
      rw [List.cons_append, percentDecodeBytes_char hc, hnone]
      rfl
    · exact hlong
    · exact hc

theorem percentDecodeBytes_ascii {c : Char} (hc : c ≠ '%') (hascii : isAscii c = true) :
    percentDecodeBytes (c :: s) = (percentDecodeBytes s).map (UInt8.ofNat c.toNat :: ·) := by
  rw [percentDecodeBytes_char hc, utf8EncodeChar_ascii hascii]
  rfl

/-- A slash of a reference is a slash of what it decodes to. -/
theorem percentDecode_slash {decoded : Text} : percentDecode (p ++ '/' :: s) = some decoded ↔
    wholeEscapes p = true ∧ ∃ u v, percentDecode p = some u ∧ percentDecode s = some v ∧ decoded = u ++ '/' :: v := by
  have hslash : percentDecodeBytes ('/' :: s) = (percentDecodeBytes s).map (UInt8.ofNat '/'.toNat :: ·) :=
    percentDecodeBytes_ascii (by decide) (by decide)
  simp only [percentDecode, Option.bind_eq_some_iff]
  constructor
  · rintro ⟨bytes, hbytes, hdecode⟩
    have hwhole : wholeEscapes p = true := wholeEscapes_of_slash (by rw [hbytes]; exact Option.some_ne_none bytes)
    rw [percentDecodeBytes_append hwhole, hslash, Option.bind_eq_some_iff] at hbytes
    obtain ⟨before, hbefore, hbytes⟩ := hbytes
    simp only [Option.map_map, Option.map_eq_some_iff, Function.comp_apply] at hbytes
    obtain ⟨after, hafter, rfl⟩ := hbytes
    obtain ⟨u, v, hu, hv, rfl⟩ := (decode_cut (by decide)).mp hdecode
    exact ⟨hwhole, u, v, ⟨before, hbefore, hu⟩, ⟨after, hafter, hv⟩, rfl⟩
  · rintro ⟨hwhole, u, v, ⟨before, hbefore, hu⟩, ⟨after, hafter, hv⟩, rfl⟩
    refine ⟨before ++ UInt8.ofNat '/'.toNat :: after, ?_, (decode_cut (by decide)).mpr ⟨u, v, hu, hv, rfl⟩⟩
    rw [percentDecodeBytes_append hwhole, hslash, hbefore, hafter]
    rfl

theorem percentDecode_root {decoded : Text} :
    percentDecode ('/' :: s) = some decoded ↔ ∃ v, percentDecode s = some v ∧ decoded = '/' :: v := by
  have hnil : percentDecode [] = some [] := by decide
  refine (percentDecode_slash (p := [])).trans ⟨?_, ?_⟩
  · rintro ⟨-, u, v, hu, hv, rfl⟩
    obtain rfl := Option.some.inj (hnil.symm.trans hu)
    exact ⟨v, hv, rfl⟩
  · rintro ⟨v, hv, rfl⟩
    exact ⟨rfl, [], v, hnil, hv, rfl⟩

/-! ## Segments -/

variable {directory names others : List Text}

theorem pushSegments_append :
    pushSegments directory (names ++ others) = (pushSegments directory names).bind (pushSegments · others) := by
  induction names generalizing directory with
  | nil => rfl
  | cons name names ih =>
    rw [List.cons_append, pushSegments, pushSegments]
    split
    · exact ih
    split
    · split
      · rfl
      · exact ih
    · exact ih

theorem pushSegments_skip {name : Text} (h : name = [] ∨ name = ['.']) :
    pushSegments directory (name :: names) = pushSegments directory names := by
  rw [pushSegments, if_pos h]

theorem pushSegments_names (h : ∀ name ∈ names, name ∉ [[], ['.'], ['.', '.']]) :
    pushSegments directory names = some (directory ++ names) := by
  induction names generalizing directory with
  | nil => rw [pushSegments, List.append_nil]
  | cons name names ih =>
    obtain ⟨hname, hnames⟩ := List.forall_mem_cons.mp h
    simp only [List.mem_cons, List.not_mem_nil, or_false, not_or] at hname
    rw [pushSegments, if_neg (not_or.mpr ⟨hname.1, hname.2.1⟩), if_neg hname.2.2, ih hnames, List.append_assoc]
    rfl

theorem segments_slash (u v : Text) : segments (u ++ '/' :: v) = segments u ++ segments v :=
  List.splitOn_append_cons_self u v

/-- The slashes in front name no segment. -/
theorem pushSegments_root (decoded : Text) :
    pushSegments directory (segments (decoded.dropWhile (· == '/'))) = pushSegments directory (segments decoded) := by
  induction decoded with
  | nil => rfl
  | cons c decoded ih =>
    by_cases hc : c = '/'
    · have hskip : pushSegments directory ([] :: segments decoded) = pushSegments directory (segments decoded) :=
        pushSegments_skip (.inl rfl)
      rw [hc, List.dropWhile_cons_of_pos (by rfl), ih, ← hskip, ← List.nil_append ('/' :: decoded), segments_slash]
      rfl
    · rw [List.dropWhile_cons_of_neg (by simpa using hc)]

/-- The directory that a decoded reference starts from. -/
def startDirectory (sourcePath decoded : Text) : List Text :=
  if decoded.head? = some '/' then []
  else ((rsplitOnce '/' sourcePath).map fun parts => segments parts.1).getD []

theorem resolvePath_eq (decoded : Text) : resolvePath K sourcePath decoded =
    (pushSegments (startDirectory sourcePath decoded) (segments decoded)).map
      fun resolved => K.nfc (['/'].intercalate resolved) := by
  rw [← pushSegments_root]
  rfl

/-- A segment without a name, or `.`, between two slashes. -/
theorem resolvePath_padded {u v between : Text} (hu : u ≠ []) (hbetween : between = [] ∨ between = ['.']) :
    resolvePath K sourcePath (u ++ '/' :: (between ++ '/' :: v)) = resolvePath K sourcePath (u ++ '/' :: v) := by
  have hstart : ∀ t : Text, startDirectory sourcePath (u ++ t) = startDirectory sourcePath u := by
    intro t
    rw [startDirectory, List.head?_append_of_ne_nil u hu]
    rfl
  have hsegments : segments between = [between] := by
    rcases hbetween with rfl | rfl <;> rfl
  rw [resolvePath_eq, resolvePath_eq, hstart, hstart, segments_slash, segments_slash, segments_slash, hsegments,
    List.singleton_append, pushSegments_append, pushSegments_append]
  simp only [pushSegments_skip hbetween]

/-! ## Spellings of one reference -/

/-- The unreserved characters of a URL. -/
def unreserved (c : Char) : Bool := isAsciiAlphanumeric c || c ∈ ['-', '.', '_', '~']

theorem unreserved_ascii {c : Char} (h : unreserved c = true) : isAscii c = true := by
  simp only [unreserved, isAsciiAlphanumeric, isAsciiAlphabetic, isAsciiDigit, Bool.or_eq_true, Bool.and_eq_true,
    decide_eq_true_eq] at h
  rcases h with ((⟨-, h⟩ | ⟨-, h⟩) | ⟨-, h⟩) | h
  · exact decide_eq_true (by omega)
  · exact decide_eq_true (by omega)
  · exact decide_eq_true (by omega)
  · simp only [List.mem_cons, List.not_mem_nil, or_false] at h
    rcases h with rfl | rfl | rfl | rfl <;> rfl

/-- The path part is spelled otherwise at one place: behind a slash that is not its first character, or by an escape for a
character that belongs to none. -/
inductive Respelled : Text → Text → Prop where
  | slash {p s : Text} (hp : p ≠ []) (hpath : withoutSuffix p = p) : Respelled (p ++ '/' :: s) (p ++ '/' :: '/' :: s)
  | dot {p s : Text} (hp : p ≠ []) (hpath : withoutSuffix p = p) :
      Respelled (p ++ '/' :: s) (p ++ '/' :: '.' :: '/' :: s)
  | escape {p s : Text} {c high low : Char} {a b : ℕ} (hpath : withoutSuffix p = p) (hwhole : wholeEscapes p = true)
      (hc : unreserved c = true) (hhigh : hexValue high = some a) (hlow : hexValue low = some b)
      (hcode : c.toNat = a * 16 + b) : Respelled (p ++ c :: s) (p ++ '%' :: high :: low :: s)

theorem percentDecodeBytes_ne_nil (hp : p ≠ []) : percentDecodeBytes p ≠ some [] := by
  intro h
  induction p using wholeEscapes.induct with
  | case1 => exact hp rfl
  | case2 high low rest ih =>
    rw [percentDecodeBytes_escape, Option.bind_eq_some_iff] at h
    obtain ⟨_, _, h⟩ := h
    obtain ⟨_, _, h⟩ := Option.bind_eq_some_iff.mp h
    obtain ⟨bytes, -, hbytes⟩ := Option.map_eq_some_iff.mp h
    cases hbytes
  | case3 rest hshort =>
    rw [percentDecodeBytes] at h
    · cases h
    · exact hshort
  | case4 c rest _ hc ih =>
    obtain ⟨bytes, -, hbytes⟩ := Option.map_eq_some_iff.mp ((percentDecodeBytes_char hc).symm.trans h)
    exact String.utf8EncodeChar_ne_nil (List.append_eq_nil_iff.mp hbytes).1

theorem percentDecode_ne_nil {u : Text} (hp : p ≠ []) (h : percentDecode p = some u) : u ≠ [] := by
  rintro rfl
  simp only [percentDecode, Option.bind_eq_some_iff] at h
  obtain ⟨bytes, hbytes, hdecode⟩ := h
  rw [← encode_of_decode hdecode] at hbytes
  exact percentDecodeBytes_ne_nil hp hbytes

theorem localTarget_padded {between : Text} (hp : p ≠ []) (hbetween : between = [] ∨ between = ['.'])
    (h : localTarget K sourcePath (p ++ '/' :: s) = some q) :
    localTarget K sourcePath (p ++ '/' :: (between ++ '/' :: s)) = some q := by
  have hnonempty : ∀ t : Text, (p ++ '/' :: t).isEmpty = false := by
    intro t
    cases p <;> rfl
  simp only [localTarget, hnonempty, Bool.false_eq_true, ↓reduceIte] at h ⊢
  obtain ⟨resolved, hresolved, hq⟩ := Option.bind_eq_some_iff.mp h
  obtain ⟨decoded, hdecoded, hpath⟩ := Option.bind_eq_some_iff.mp hresolved
  obtain ⟨hwhole, u, v, hu, hv, rfl⟩ := percentDecode_slash.mp hdecoded
  have hmiddle : percentDecode (between ++ '/' :: s) = some (between ++ '/' :: v) := by
    refine percentDecode_slash.mpr ⟨?_, between, v, ?_, hv, rfl⟩
    · rcases hbetween with rfl | rfl <;> rfl
    · rcases hbetween with rfl | rfl
      · decide
      · decide
  rw [percentDecode_slash.mpr ⟨hwhole, u, _, hu, hmiddle, rfl⟩, Option.bind_some,
    resolvePath_padded (percentDecode_ne_nil hp hu) hbetween, hpath, Option.bind_some]
  exact hq

theorem localTarget_escaped {c high low : Char} {a b : ℕ} (hwhole : wholeEscapes p = true) (hc : unreserved c = true)
    (hhigh : hexValue high = some a) (hlow : hexValue low = some b) (hcode : c.toNat = a * 16 + b) :
    localTarget K sourcePath (p ++ '%' :: high :: low :: s) = localTarget K sourcePath (p ++ c :: s) := by
  have hnonempty : ∀ (d : Char) (t : Text), (p ++ d :: t).isEmpty = false := by
    intro d t
    cases p <;> rfl
  have hne : c ≠ '%' := by
    rintro rfl
    cases hc
  have hsame : percentDecodeBytes ('%' :: high :: low :: s) = percentDecodeBytes (c :: s) := by
    rw [percentDecodeBytes_escape, hhigh, hlow, percentDecodeBytes_ascii hne (unreserved_ascii hc), hcode]
    rfl
  simp only [localTarget, hnonempty, percentDecode, percentDecodeBytes_append hwhole, hsame]

/-- No scheme reaches over such a character. -/
theorem hasExplicitScheme_stop {c : Char} (hp : ':' ∉ p) (hcolon : c ≠ ':') (hc : isAsciiAlphanumeric c = false)
    (hmark : c ∉ ['+', '-', '.']) : hasExplicitScheme (p ++ c :: s) = false := by
  have hscheme : (p ++ c :: s).takeWhile (· != ':') = p ++ c :: s.takeWhile (· != ':') := by
    have hplain : ∀ d ∈ p, (d != ':') = true := by
      intro d hd
      refine bne_iff_ne.mpr ?_
      rintro rfl
      exact hp hd
    have hstop : (c != ':') = true := bne_iff_ne.mpr hcolon
    rw [List.takeWhile_append_of_pos hplain, List.takeWhile_cons, if_pos hstop]
  have hletter : isAsciiAlphabetic c = false := by
    rw [isAsciiAlphanumeric, Bool.or_eq_false_iff] at hc
    exact hc.1
  simp only [List.mem_cons, List.not_mem_nil, or_false, not_or] at hmark
  simp only [hasExplicitScheme, hscheme]
  cases p with
  | nil => simp only [List.nil_append, hletter, Bool.false_and, Bool.and_false]
  | cons d p => simp [hc, hmark]

theorem hasExplicitScheme_within {x y : Text} (hp : ':' ∈ p) : hasExplicitScheme (p ++ x) = hasExplicitScheme (p ++ y) := by
  have hscheme : ∀ t : Text, (p ++ t).takeWhile (· != ':') = p.takeWhile (· != ':') := by
    intro t
    rw [List.takeWhile_append, if_neg]
    intro hlength
    have hall := (List.takeWhile_sublist (· != ':')).eq_of_length hlength
    rw [← hall] at hp
    have hne : (':' != ':') = true := List.mem_takeWhile_imp (p := (· != ':')) hp
    cases hne
  simp only [hasExplicitScheme, hscheme, List.contains_append, List.contains_iff_mem.mpr hp, Bool.true_or]

/-- The form depends on what stands before the place where the two texts part, if no scheme reaches over it. -/
theorem localForm_congr {c d : Char} {x y : Text} (h : localForm (p ++ c :: x) = true)
    (hhead : p = [] → d ≠ '#') (hhost : p.length ≤ 1 → "//".toList.isPrefixOf (p ++ d :: y) = false)
    (hchars : ∀ e ∈ d :: y, isControl e = false ∧ e ≠ '\\')
    (hscheme : ':' ∉ p → hasExplicitScheme (p ++ d :: y) = false) : localForm (p ++ d :: y) = true := by
  simp only [localForm, Bool.and_eq_true, Bool.not_eq_true', bne_iff_ne, Bool.or_eq_false_iff] at h ⊢
  obtain ⟨⟨⟨⟨-, hfragment⟩, hcontrol, hback⟩, hrelative⟩, hplain⟩ := h
  refine ⟨⟨⟨⟨?_, ?_⟩, ?_, ?_⟩, ?_⟩, ?_⟩
  · cases p <;> rfl
  · cases p with
    | nil =>
      intro heq
      exact hhead rfl (Option.some.inj heq)
    | cons e p => exact hfragment
  · rw [List.any_append, Bool.or_eq_false_iff] at hcontrol ⊢
    refine ⟨hcontrol.1, List.any_eq_false.mpr fun e he => ?_⟩
    rw [(hchars e he).1]
    exact Bool.false_ne_true
  · rw [List.contains_append, Bool.or_eq_false_iff] at hback ⊢
    refine ⟨hback.1, Bool.eq_false_of_not_eq_true fun hmem => ?_⟩
    exact (hchars _ (List.contains_iff_mem.mp hmem)).2 rfl
  · by_cases hshort : p.length ≤ 1
    · exact hhost hshort
    · have hsame : ∀ t : Text, "//".toList.isPrefixOf (p ++ t) = "//".toList.isPrefixOf p := by
        intro t
        obtain ⟨e, e', rest, rfl⟩ : ∃ e e' rest, p = e :: e' :: rest := by
          cases p with
          | nil => exact absurd (Nat.zero_le 1) hshort
          | cons e p => cases p with
            | nil => exact absurd (Nat.le_refl 1) hshort
            | cons e' rest => exact ⟨e, e', rest, rfl⟩
        rfl
      rw [hsame] at hrelative ⊢
      exact hrelative
  · by_cases hcolon : ':' ∈ p
    · rw [hasExplicitScheme_within (y := c :: x) hcolon]
      exact hplain
    · exact hscheme hcolon

theorem localForm_chars (h : localForm reference = true) : ∀ c ∈ reference, isControl c = false ∧ c ≠ '\\' := by
  simp only [localForm, Bool.and_eq_true, Bool.not_eq_true', Bool.or_eq_false_iff] at h
  obtain ⟨⟨⟨-, hcontrol, hback⟩, -⟩, -⟩ := h
  intro c hc
  refine ⟨Bool.eq_false_of_not_eq_true (List.any_eq_false.mp hcontrol c hc), ?_⟩
  rintro rfl
  rw [List.contains_iff_mem.mpr hc] at hback
  cases hback

theorem hexValue_chars {c : Char} {n : ℕ} (h : hexValue c = some n) : isControl c = false ∧ c ≠ '\\' := by
  refine ⟨?_, by rintro rfl; cases h⟩
  have hrange : 0x30 ≤ c.toNat ∧ c.toNat ≤ 0x66 := by
    simp only [hexValue, isAsciiDigit, Bool.and_eq_true, decide_eq_true_eq] at h
    split at h
    · omega
    split at h
    · omega
    split at h
    · omega
    · cases h
  simp only [isControl, Bool.or_eq_false_iff, Bool.and_eq_false_iff, decide_eq_false_iff_not]
  omega

theorem localForm_slash {x : Text} (hp : p ≠ []) (hchars : ∀ c ∈ x, c ∈ s ∨ c = '.' ∨ c = '/')
    (h : localForm (p ++ '/' :: s) = true) : localForm (p ++ '/' :: x) = true := by
  refine localForm_congr h (fun hnil => absurd hnil hp) ?_ ?_ ?_
  · intro hshort
    obtain ⟨c, rfl⟩ := List.length_eq_one_iff.mp (Nat.le_antisymm hshort (List.length_pos_iff.mpr hp))
    simp only [localForm, Bool.and_eq_true, Bool.not_eq_true'] at h
    exact h.1.2
  · intro c hc
    rcases List.mem_cons.mp hc with rfl | hc
    · decide
    rcases hchars c hc with hc | rfl | rfl
    · exact localForm_chars h c (List.mem_append_right _ (List.mem_cons_of_mem _ hc))
    · decide
    · decide
  · intro hcolon
    exact hasExplicitScheme_stop hcolon (by decide) (by decide) (by decide)

theorem localForm_escape {c high low : Char} {a b : ℕ} (hhigh : hexValue high = some a) (hlow : hexValue low = some b)
    (h : localForm (p ++ c :: s) = true) : localForm (p ++ '%' :: high :: low :: s) = true := by
  refine localForm_congr h (fun _ => by decide) ?_ ?_ ?_
  · intro hshort
    cases p with
    | nil => rfl
    | cons e p =>
      obtain rfl : p = [] := List.length_eq_zero_iff.mp (Nat.le_zero.mp (Nat.le_of_succ_le_succ hshort))
      refine Bool.eq_false_of_not_eq_true fun hprefix => ?_
      obtain ⟨rest, hrest⟩ := List.isPrefixOf_iff_prefix.mp hprefix
      cases hrest
  · refine List.forall_mem_cons.mpr ⟨by decide, List.forall_mem_cons.mpr ⟨hexValue_chars hhigh,
      List.forall_mem_cons.mpr ⟨hexValue_chars hlow, fun e he => ?_⟩⟩⟩
    exact localForm_chars h e (List.mem_append_right _ (List.mem_cons_of_mem _ he))
  · intro hcolon
    exact hasExplicitScheme_stop hcolon (by decide) (by decide) (by decide)

/-- One respelling keeps what the reference leads to. -/
theorem Respelled.keeps {r r' : Text} (h : Respelled r r') (hform : localForm r = true)
    (htarget : localTarget K sourcePath (withoutSuffix r) = some q) :
    localForm r' = true ∧ localTarget K sourcePath (withoutSuffix r') = some q := by
  have hsuffix : ∀ {p t : Text}, withoutSuffix p = p → withoutSuffix (p ++ t) = p ++ withoutSuffix t := by
    intro p t hpath
    refine List.takeWhile_append_of_pos fun c hc => ?_
    rw [← hpath] at hc
    exact List.mem_takeWhile_imp (p := fun c => c != '?' && c != '#') hc
  have hcons : ∀ {c : Char} {t : Text}, c ≠ '?' → c ≠ '#' → withoutSuffix (c :: t) = c :: withoutSuffix t := by
    intro c t hquery hfragment
    simp [withoutSuffix, hquery, hfragment]
  cases h with
  | slash hp hpath =>
    rw [hsuffix hpath, hcons (by decide) (by decide)] at htarget
    rw [hsuffix hpath, hcons (by decide) (by decide), hcons (by decide) (by decide)]
    have hbetween : ([] : Text) = [] ∨ ([] : Text) = ['.'] := .inl rfl
    refine ⟨localForm_slash hp ?_ hform, localTarget_padded hp hbetween htarget⟩
    intro c hc
    rcases List.mem_cons.mp hc with rfl | hc
    · exact .inr (.inr rfl)
    · exact .inl hc
  | dot hp hpath =>
    rw [hsuffix hpath, hcons (by decide) (by decide)] at htarget
    rw [hsuffix hpath, hcons (by decide) (by decide), hcons (by decide) (by decide), hcons (by decide) (by decide)]
    have hbetween : ['.'] = [] ∨ ['.'] = ['.'] := .inr rfl
    refine ⟨localForm_slash hp ?_ hform, localTarget_padded hp hbetween htarget⟩
    intro c hc
    rcases List.mem_cons.mp hc with rfl | hc
    · exact .inr (.inl rfl)
    rcases List.mem_cons.mp hc with rfl | hc
    · exact .inr (.inr rfl)
    · exact .inl hc
  | @escape p s c high low a b hpath hwhole hc hhigh hlow hcode =>
    refine ⟨localForm_escape hhigh hlow hform, ?_⟩
    have hdigit : ∀ {d : Char} {n : ℕ}, hexValue d = some n → d ≠ '?' ∧ d ≠ '#' := by
      intro d n hd
      constructor <;> rintro rfl <;> cases hd
    rw [hsuffix hpath, hcons] at htarget
    · rw [hsuffix hpath, hcons (by decide) (by decide), hcons (hdigit hhigh).1 (hdigit hhigh).2,
        hcons (hdigit hlow).1 (hdigit hlow).2, localTarget_escaped hwhole hc hhigh hlow hcode]
      exact htarget
    · rintro rfl
      cases hc
    · rintro rfl
      cases hc

theorem respelled_keeps {r r' : Text} (h : Relation.ReflTransGen Respelled r r') (hform : localForm r = true)
    (htarget : localTarget K sourcePath (withoutSuffix r) = some q) :
    localForm r' = true ∧ localTarget K sourcePath (withoutSuffix r') = some q := by
  induction h with
  | refl => exact ⟨hform, htarget⟩
  | tail _ hstep ih => exact hstep.keeps ih.1 ih.2

/-! ## Spelling a path out -/

/-- The characters that a path segment of a URL can hold as they are. -/
def pathChar (c : Char) : Bool := unreserved c || c ∈ "!$&'()*+,;=:@".toList

def upperHexDigit (n : ℕ) : Char := if n < 10 then Char.ofNat (0x30 + n) else Char.ofNat (0x41 + (n - 10))

def escapeByte (b : UInt8) : Text := ['%', upperHexDigit (b.toNat / 16), upperHexDigit (b.toNat % 16)]

/-- The text with escapes for all the characters but those of `keep`. -/
def percentEncode (keep : Char → Bool) (t : Text) : Text :=
  t.flatMap fun c => if keep c then [c] else (String.utf8EncodeChar c).flatMap escapeByte

/-- The characters of an encoded segment: none is a slash, a delimiter, white space or a control. -/
def spelledChar (c : Char) : Bool := pathChar c || c == '%'

theorem spelledChar_plain {c : Char} (h : spelledChar c = true) :
    isControl c = false ∧ c ≠ '\\' ∧ isWhitespace c = false ∧ c ≠ '/' ∧ c ≠ '?' ∧ c ≠ '#' := by
  have hrange : 0x21 ≤ c.toNat ∧ c.toNat ≤ 0x7e := by
    simp only [spelledChar, pathChar, unreserved, isAsciiAlphanumeric, isAsciiAlphabetic, isAsciiDigit, Bool.or_eq_true,
      Bool.and_eq_true, decide_eq_true_eq, beq_iff_eq] at h
    have hmarks : ∀ d ∈ '%' :: (['-', '.', '_', '~'] ++ "!$&'()*+,;=:@".toList),
        (decide (0x21 ≤ d.toNat) && decide (d.toNat ≤ 0x7e)) = true := List.all_eq_true.mp (by decide)
    have hmark : c ∈ '%' :: (['-', '.', '_', '~'] ++ "!$&'()*+,;=:@".toList) → 0x21 ≤ c.toNat ∧ c.toNat ≤ 0x7e := by
      intro hc
      simpa using hmarks c hc
    rcases h with (((h | h) | h) | h) | rfl
    · omega
    · omega
    · exact hmark (List.mem_cons_of_mem _ (List.mem_append_left _ h))
    · exact hmark (List.mem_cons_of_mem _ (List.mem_append_right _ h))
    · decide
  refine ⟨?_, ?_, ?_, ?_, ?_, ?_⟩
  · simp only [isControl, Bool.or_eq_false_iff, Bool.and_eq_false_iff, decide_eq_false_iff_not]
    omega
  · rintro rfl
    exact absurd h (by decide)
  · simp only [isWhitespace, Bool.or_eq_false_iff, Bool.and_eq_false_iff, decide_eq_false_iff_not, beq_eq_false_iff_ne]
    omega
  · rintro rfl
    exact absurd h (by decide)
  · rintro rfl
    exact absurd h (by decide)
  · rintro rfl
    exact absurd h (by decide)

set_option maxRecDepth 10000 in
theorem upperHexDigit_spec : ∀ {n : ℕ}, n < 16 →
    hexValue (upperHexDigit n) = some n ∧ spelledChar (upperHexDigit n) = true := by
  decide

section
variable {keep : Char → Bool}

theorem percentDecodeBytes_escapeByte (b : UInt8) :
    percentDecodeBytes (escapeByte b ++ s) = (percentDecodeBytes s).map (b :: ·) := by
  have hlt := b.toNat_lt
  have hhigh := (upperHexDigit_spec (n := b.toNat / 16) (by omega)).1
  have hlow := (upperHexDigit_spec (n := b.toNat % 16) (by omega)).1
  have hbyte : UInt8.ofNat (b.toNat / 16 * 16 + b.toNat % 16) = b := by
    rw [Nat.div_add_mod' b.toNat 16]
    exact UInt8.ofNat_toNat
  change percentDecodeBytes ('%' :: upperHexDigit (b.toNat / 16) :: upperHexDigit (b.toNat % 16) :: s) = _
  rw [percentDecodeBytes_escape, hhigh, hlow, Option.bind_some, Option.bind_some, hbyte]

theorem percentDecodeBytes_escapes (bytes : Bytes) :
    percentDecodeBytes (bytes.flatMap escapeByte ++ s) = (percentDecodeBytes s).map (bytes ++ ·) := by
  induction bytes with
  | nil => simp
  | cons b bytes ih =>
    rw [List.flatMap_cons, List.append_assoc, percentDecodeBytes_escapeByte, ih, Option.map_map]
    rfl

theorem percentDecodeBytes_encode (hkeep : ∀ c, keep c = true → pathChar c = true) (t : Text) :
    percentDecodeBytes (percentEncode keep t ++ s) = (percentDecodeBytes s).map (encode t ++ ·) := by
  induction t with
  | nil => simp [percentEncode, encode]
  | cons c t ih =>
    have hrest : percentDecodeBytes ((if keep c then [c] else (String.utf8EncodeChar c).flatMap escapeByte) ++
        (percentEncode keep t ++ s)) = (percentDecodeBytes (percentEncode keep t ++ s)).map (String.utf8EncodeChar c ++ ·) := by
      split
      · next hc =>
        refine percentDecodeBytes_char ?_
        rintro rfl
        exact absurd (hkeep _ hc) (by decide)
      · exact percentDecodeBytes_escapes _
    rw [percentEncode, List.flatMap_cons, List.append_assoc]
    change percentDecodeBytes (_ ++ (percentEncode keep t ++ s)) = _
    rw [hrest, ih, Option.map_map]
    simp [Function.comp_def, encode]

theorem percentEncode_chars (hkeep : ∀ c, keep c = true → pathChar c = true) (t : Text) :
    ∀ c ∈ percentEncode keep t, spelledChar c = true := by
  intro c hc
  obtain ⟨d, -, hd⟩ := List.mem_flatMap.mp hc
  split at hd
  · next hkept =>
    rw [List.mem_singleton.mp hd, spelledChar, hkeep d hkept, Bool.true_or]
  · obtain ⟨b, -, hb⟩ := List.mem_flatMap.mp hd
    have hlt := b.toNat_lt
    simp only [escapeByte, List.mem_cons, List.not_mem_nil, or_false] at hb
    rcases hb with rfl | rfl | rfl
    · rfl
    · exact (upperHexDigit_spec (by omega)).2
    · exact (upperHexDigit_spec (by omega)).2

/-- The reference that spells a path out from the root. -/
def rootReference (keep : Char → Bool) (path : Text) : Text :=
  '/' :: ['/'].intercalate ((segments path).map (percentEncode keep))

theorem percentDecodeBytes_names (hkeep : ∀ c, keep c = true → pathChar c = true) (name : Text) (names : List Text) :
    percentDecodeBytes (['/'].intercalate ((name :: names).map (percentEncode keep))) =
      some (encode (['/'].intercalate (name :: names))) := by
  induction names generalizing name with
  | nil =>
    rw [List.map_singleton, List.intercalate_singleton, List.intercalate_singleton,
      ← List.append_nil (percentEncode keep name), percentDecodeBytes_encode hkeep, percentDecodeBytes]
    simp
  | cons next names ih =>
    rw [List.map_cons, List.map_cons, List.intercalate_cons_cons, List.intercalate_cons_cons, ← List.map_cons,
      List.append_assoc, percentDecodeBytes_encode hkeep, List.singleton_append,
      percentDecodeBytes_ascii (by decide) (by decide), ih]
    rw [Option.map_some, Option.map_some]
    simp only [encode, List.flatMap_append, List.flatMap_cons, List.append_assoc]
    rfl

theorem percentDecode_rootReference (hkeep : ∀ c, keep c = true → pathChar c = true) (path : Text) :
    percentDecode (rootReference keep path) = some ('/' :: path) := by
  obtain ⟨name, names, hnames⟩ := List.exists_cons_of_ne_nil (List.splitOn_ne_nil '/' path)
  change segments path = name :: names at hnames
  have hpath : ['/'].intercalate (name :: names) = path := by
    rw [← hnames]
    exact List.intercalate_splitOn '/'
  have htail := percentDecodeBytes_names hkeep name names
  rw [hpath, ← hnames] at htail
  refine percentDecode_root.mpr ⟨path, ?_, rfl⟩
  rw [percentDecode, htail, Option.bind_some, decode_encode]

/-- The text before the first white space is trimmed nowhere. -/
theorem trim_spaceless {t : Text} (h : ∀ c ∈ t, isWhitespace c = false) : trim t = t := by
  have hstart : trimStart t = t := by
    cases t with
    | nil => rfl
    | cons c t => exact trimStart_cons_not (h c List.mem_cons_self)
  rw [trim, hstart, trimEnd, List.rdropWhile_eq_self_iff]
  intro hne
  rw [h _ (List.getLast_mem hne)]
  exact Bool.false_ne_true

theorem canonical_names (h : validateCanonicalPath K q = true) :
    ∀ name ∈ segments q, name ∉ [[], ['.'], ['.', '.']] := by
  simp only [validateCanonicalPath, Bool.and_eq_true, List.all_eq_true, Bool.not_eq_true', Bool.or_eq_false_iff] at h
  intro name hname
  have hbad := (h.2 name hname).1
  simp only [badSegment, Bool.or_eq_false_iff, decide_eq_false_iff_not] at hbad
  obtain ⟨⟨⟨⟨hempty, hdots⟩, -⟩, -⟩, -⟩ := hbad
  rw [List.mem_cons, not_or]
  refine ⟨?_, hdots⟩
  rintro rfl
  cases hempty

theorem canonical_whole (h : validateCanonicalPath K q = true) : q ≠ [] ∧ q.head? ≠ some '/' ∧ K.nfc q = q := by
  simp only [validateCanonicalPath, Bool.and_eq_true, Bool.not_eq_true', Bool.or_eq_false_iff, bne_eq_false_iff_eq,
    beq_eq_false_iff_ne] at h
  obtain ⟨⟨⟨⟨⟨⟨⟨hempty, -⟩, -⟩, -⟩, hroot⟩, hnfc⟩, -⟩, -⟩ := h
  refine ⟨?_, hroot, hnfc⟩
  rintro rfl
  cases hempty

theorem rootReference_chars (hkeep : ∀ c, keep c = true → pathChar c = true) :
    ∀ c ∈ ['/'].intercalate (names.map (percentEncode keep)), spelledChar c = true ∨ c = '/' := by
  induction names with
  | nil => exact fun c hc => absurd hc List.not_mem_nil
  | cons name names ih =>
    cases names with
    | nil =>
      rw [List.map_singleton, List.intercalate_singleton]
      exact fun c hc => .inl (percentEncode_chars hkeep name c hc)
    | cons next names =>
      rw [List.map_cons, List.map_cons, List.intercalate_cons_cons, ← List.map_cons]
      intro c hc
      rcases List.mem_append.mp hc with hc | hc
      · rcases List.mem_append.mp hc with hc | hc
        · exact .inl (percentEncode_chars hkeep name c hc)
        · exact .inr (List.mem_singleton.mp hc)
      · exact ih c hc

theorem resolveReference_root (hkeep : ∀ c, keep c = true → pathChar c = true) (hq : validateCanonicalPath K q = true) :
    resolveReference K sourcePath (rootReference keep q) = .ok (.local q) := by
  obtain ⟨hne, hroot, hnfc⟩ := canonical_whole hq
  have hnames := canonical_names hq
  have hchars : ∀ c ∈ rootReference keep q, isControl c = false ∧ c ≠ '\\' ∧ isWhitespace c = false ∧ c ≠ '?' ∧ c ≠ '#' := by
    refine List.forall_mem_cons.mpr ⟨by decide, fun c hc => ?_⟩
    rcases rootReference_chars hkeep c hc with hspelled | rfl
    · obtain ⟨hcontrol, hback, hspace, -, hquery, hfragment⟩ := spelledChar_plain hspelled
      exact ⟨hcontrol, hback, hspace, hquery, hfragment⟩
    · decide
  have htrim : trim (rootReference keep q) = rootReference keep q :=
    trim_spaceless fun c hc => (hchars c hc).2.2.1
  have hsuffix : withoutSuffix (rootReference keep q) = rootReference keep q := by
    refine List.takeWhile_eq_self_iff.mpr fun c hc => ?_
    obtain ⟨-, -, -, hquery, hfragment⟩ := hchars c hc
    simp [hquery, hfragment]
  have hhost : "//".toList.isPrefixOf (rootReference keep q) = false := by
    refine Bool.eq_false_of_not_eq_true fun hprefix => ?_
    obtain ⟨rest, hrest⟩ := List.isPrefixOf_iff_prefix.mp hprefix
    have hdecoded := percentDecode_rootReference hkeep q
    rw [← hrest] at hdecoded
    obtain ⟨v, hv, heq⟩ := percentDecode_root.mp hdecoded
    obtain ⟨v', -, rfl⟩ := percentDecode_root.mp hv
    exact hroot (by rw [(List.cons.inj heq).2]; rfl)
  have hscheme : hasExplicitScheme (rootReference keep q) = false :=
    hasExplicitScheme_stop (p := []) List.not_mem_nil (by decide) (by decide) (by decide)
  rw [resolveReference_local, htrim, hsuffix]
  constructor
  · have hcontrol : (rootReference keep q).any isControl = false :=
      List.any_eq_false.mpr fun c hc => by rw [(hchars c hc).1]; exact Bool.false_ne_true
    have hback : (rootReference keep q).contains '\\' = false :=
      Bool.eq_false_of_not_eq_true fun hmem => (hchars _ (List.contains_iff_mem.mp hmem)).2.1 rfl
    simp only [localForm, hcontrol, hback, hhost, hscheme]
    rfl
  · have hresolved : resolvePath K sourcePath ('/' :: q) = some q := by
      have hsegments : segments ('/' :: q) = [] :: segments q := segments_slash [] q
      have hstart : startDirectory sourcePath ('/' :: q) = [] := if_pos rfl
      rw [resolvePath_eq, hsegments, hstart, pushSegments_skip (.inl rfl), pushSegments_names hnames, List.nil_append,
        Option.map_some]
      have hjoin : ['/'].intercalate (segments q) = q := List.intercalate_splitOn '/'
      rw [hjoin, hnfc]
    simp only [localTarget, percentDecode_rootReference hkeep, hresolved, Option.bind_some, hq, List.isEmpty_iff, hne,
      ↓reduceIte]
    rfl

end

theorem localTarget_canonical (hindex : K.nfc "index.html".toList = "index.html".toList)
    (hsource : validateCanonicalPath K sourcePath = true) (h : localTarget K sourcePath p = some q) :
    validateCanonicalPath K q = true := by
  unfold localTarget at h
  split at h
  · cases h
    exact hsource
  obtain ⟨resolved, -, hq⟩ := Option.bind_eq_some_iff.mp h
  split at hq
  · cases hq
    simp only [validateCanonicalPath, hindex]
    decide
  split at hq
  · next hcanonical =>
    cases hq
    exact hcanonical
  · cases hq

end

/-! ## The laws -/

/-- What a local reference leads to lies in the site, is the same for all spellings of the reference, and can be spelled
out from the root. -/
theorem local_confined (K : Crates) (hnfc : ∀ t : Text, (∀ c ∈ t, isAscii c = true) → K.nfc t = t) {sourcePath raw q : Text}
    (hsource : validateCanonicalPath K sourcePath = true) (h : resolveReference K sourcePath raw = .ok (.local q)) :
    (validateCanonicalPath K q = true ∧ ∀ name ∈ segments q, name ∉ [[], ['.'], ['.', '.']]) ∧
    (∀ raw' q', resolveReference K sourcePath raw' = .ok (.local q') →
      withoutSuffix (trim raw') = withoutSuffix (trim raw) → q' = q) ∧
    (∀ raw', Relation.ReflTransGen Respelled (trim raw) (trim raw') →
      resolveReference K sourcePath raw' = .ok (.local q)) ∧
    ∀ other keep, (∀ c, keep c = true → pathChar c = true) →
      resolveReference K other (rootReference keep q) = .ok (.local q) := by
  obtain ⟨hform, htarget⟩ := resolveReference_local.mp h
  have hindex : K.nfc "index.html".toList = "index.html".toList :=
    hnfc _ (List.all_eq_true.mp (by decide))
  have hcanonical := localTarget_canonical hindex hsource htarget
  refine ⟨⟨hcanonical, canonical_names hcanonical⟩, ?_, ?_, ?_⟩
  · intro raw' q' h' hagree
    obtain ⟨-, htarget'⟩ := resolveReference_local.mp h'
    rw [hagree, htarget] at htarget'
    exact (Option.some.inj htarget').symm
  · intro raw' hrespelled
    exact resolveReference_local.mpr (respelled_keeps hrespelled hform htarget)
  · intro other keep hkeep
    exact resolveReference_root hkeep hcanonical

theorem local_confined_image :
    resolveReference sampleCrates "docs/page.html".toList "../img/a%20b.png?v=1".toList = .ok (.local "img/a b.png".toList) ∧
    resolveReference sampleCrates "index.html".toList "/img/a%20b.png".toList = .ok (.local "img/a b.png".toList) := by
  have hlocal : resolveReference sampleCrates "docs/page.html".toList "../img/a%20b.png?v=1".toList =
      .ok (.local "img/a b.png".toList) := by
    decide
  have hspelled : rootReference unreserved "img/a b.png".toList = "/img/a%20b.png".toList := by decide
  have hkeep : ∀ c, unreserved c = true → pathChar c = true := by
    intro c hc
    rw [pathChar, hc, Bool.true_or]
  refine ⟨hlocal, ?_⟩
  rw [← hspelled]
  exact (local_confined sampleCrates (fun _ _ => rfl) (by decide) hlocal).2.2.2 "index.html".toList unreserved hkeep

/-- A space that is not ASCII is cut off behind a path, but not before a query. -/
theorem resolveReference_trailing_space :
    resolveReference sampleCrates "index.html".toList "a\u00a0".toList = .ok (.local "a".toList) ∧
    resolveReference sampleCrates "index.html".toList "a\u00a0?x".toList = .ok (.local "a\u00a0".toList) ∧
    withoutSuffix "a\u00a0".toList = withoutSuffix "a\u00a0?x".toList := by
  decide

end LpStudio.StaticExport
