import LpStudio.ChangeSet.Lemmas.MediaType
import LpStudio.ChangeSet.Lemmas.Sightings
import LpStudio.Markup.Attributes

/-! # Scripts, frames, forms and downloads
The active elements of a page with their effective attributes, where the first occurrence of a name wins,
and when the behaviour gate compares exactly these.
-/
namespace LpStudio.ChangeSet
open Str Scanning Markup

/-! ## Effective attributes -/

abbrev AttributeMap := Std.ExtTreeMap Text Text compare

/-- The first occurrence of a name wins. -/
def effectiveAttributes : List (Text × Text) → AttributeMap
  | [] => ∅
  | (name, value) :: attributes => (effectiveAttributes attributes).insert name value

/-- No name stands with two values. -/
def NoConflict (attributes : List (Text × Text)) : Prop :=
  ∀ a ∈ attributes, ∀ b ∈ attributes, a.1 = b.1 → a.2 = b.2

instance (attributes : List (Text × Text)) : Decidable (NoConflict attributes) :=
  inferInstanceAs (Decidable (∀ a ∈ attributes, ∀ b ∈ attributes, a.1 = b.1 → a.2 = b.2))

theorem effective_mem {attributes : List (Text × Text)} {name value : Text}
    (h : (effectiveAttributes attributes)[name]? = some value) : (name, value) ∈ attributes := by
  induction attributes with
  | nil => simp [effectiveAttributes] at h
  | cons a attributes ih =>
    obtain ⟨n, v⟩ := a
    rw [effectiveAttributes, Std.ExtTreeMap.getElem?_insert] at h
    split at h
    · rename_i heq
      obtain rfl := Std.LawfulEqCmp.eq_of_compare heq
      rw [Option.some.inj h]
      exact List.mem_cons_self
    · exact List.mem_cons_of_mem _ (ih h)

theorem effective_of_mem {attributes : List (Text × Text)} {name value : Text}
    (h : (name, value) ∈ attributes) : ∃ v, (effectiveAttributes attributes)[name]? = some v := by
  induction attributes with
  | nil => cases h
  | cons a attributes ih =>
    obtain ⟨n, v⟩ := a
    rw [effectiveAttributes, Std.ExtTreeMap.getElem?_insert]
    split
    · exact ⟨v, rfl⟩
    · rename_i hne
      rcases List.mem_cons.mp h with heq | h
      · obtain ⟨rfl, rfl⟩ := Prod.mk.inj heq
        exact absurd (Std.ReflCmp.compare_self) hne
      · exact ih h

theorem effective_iff {attributes : List (Text × Text)} (hc : NoConflict attributes) {name value : Text} :
    (effectiveAttributes attributes)[name]? = some value ↔ (name, value) ∈ attributes := by
  refine ⟨effective_mem, fun h => ?_⟩
  obtain ⟨v, hv⟩ := effective_of_mem h
  have hvalue : v = value := hc (name, v) (effective_mem hv) (name, value) h rfl
  rw [hv, hvalue]

/-- Without conflicts the last occurrence of a name has the value of the first. -/
theorem getAttribute_effective {attributes : List (Text × Text)} (hc : NoConflict attributes) (name : Text) :
    getAttribute attributes name = (effectiveAttributes attributes)[name]? := by
  cases hfind : attributes.reverse.find? (·.1 == name) with
  | none =>
    cases heff : (effectiveAttributes attributes)[name]? with
    | none => rw [getAttribute, hfind]; rfl
    | some value =>
      have := List.find?_eq_none.mp hfind (name, value) (List.mem_reverse.mpr (effective_mem heff))
      simp at this
  | some a =>
    obtain ⟨n, v⟩ := a
    have hmem := List.mem_reverse.mp (List.mem_of_find?_eq_some hfind)
    obtain rfl : n = name := by simpa using List.find?_some hfind
    rw [getAttribute, hfind, (effective_iff hc).mpr hmem]
    rfl

theorem effective_perm {xs ys : List (Text × Text)} (h : xs.Perm ys) (hx : NoConflict xs)
    (hy : NoConflict ys) : effectiveAttributes xs = effectiveAttributes ys := by
  ext name
  rw [effective_iff hx, effective_iff hy]
  exact h.mem_iff

/-- No name and no value reaches the length that a `u64` cannot hold. -/
def Short (attributes : List (Text × Text)) : Prop :=
  ∀ a ∈ attributes, (encode a.1).length < 2 ^ 64 ∧ (encode a.2).length < 2 ^ 64

instance (attributes : List (Text × Text)) : Decidable (Short attributes) :=
  inferInstanceAs (Decidable (∀ a ∈ attributes, _ ∧ _))

/-- The canonical bytes determine the attributes up to their order. -/
theorem canonicalAttributes_perm {xs ys : List (Text × Text)} (hx : Short xs) (hy : Short ys)
    (h : canonicalAttributes xs = canonicalAttributes ys) : xs.Perm ys := by
  have hsortx := List.perm_insertionSort (attributeLe · ·) xs
  have hsorty := List.perm_insertionSort (attributeLe · ·) ys
  have hsame : (xs.insertionSort (attributeLe · ·)).map (Prod.map encode encode) =
      (ys.insertionSort (attributeLe · ·)).map (Prod.map encode encode) := by
    refine Framing.flatMap_frame_inj ?_ ?_ ?_
    · simp only [List.mem_map, forall_exists_index, and_imp, forall_apply_eq_imp_iff₂]
      intro a ha
      exact hx a (hsortx.mem_iff.mp ha)
    · simp only [List.mem_map, forall_exists_index, and_imp, forall_apply_eq_imp_iff₂]
      intro a ha
      exact hy a (hsorty.mem_iff.mp ha)
    · simpa only [canonicalAttributes, framed, List.flatMap_map, Prod.map_fst, Prod.map_snd] using h
  have hinj : Function.Injective (Prod.map encode encode) := encode_injective.prodMap encode_injective
  have hsorted := List.map_injective_iff.mpr hinj hsame
  exact hsortx.symm.trans (hsorted ▸ hsorty)

/-! ## Elements -/

inductive ElementKind where
  | script | iframe | form | download
  deriving DecidableEq, Repr

def ElementKind.counter : ElementKind → FeatureKind
  | script => .script
  | iframe => .iframe
  | form => .form
  | download => .download

/-- An element: its start tag and its raw text. -/
abbrev Element := StaticExport.MarkupTag × Text

/-- The effective source, action or target. -/
def ElementKind.destination (kind : ElementKind) (e : Element) : Option Text :=
  let attributes := effectiveAttributes e.1.attributes
  match kind with
  | script | iframe => attributes["src".toList]?
  | form => attributes["action".toList]?
  | download => attributes["href".toList]?

def ElementKind.has (kind : ElementKind) (e : Element) : Bool :=
  let attributes := effectiveAttributes e.1.attributes
  !e.1.closing && match kind with
  | script => e.1.name == "script".toList
  | iframe => e.1.name == "iframe".toList
  | form => e.1.name == "form".toList && attributes["action".toList]?.isSome
  | download => attributes["download".toList]?.isSome

/-- Destination, effective attributes and inline body. -/
def ElementKind.view (kind : ElementKind) (e : Element) : Option Text × AttributeMap × Option Text :=
  (kind.destination e, effectiveAttributes e.1.attributes,
    if kind = script ∧ kind.destination e = none then some e.2 else none)

/-- The elements of the page at `path` as the reference scanner reads it. -/
def pageElements (files : Files) (path : Text) : List Element :=
  ((pageText files path).bind fun text => (elements path text).toOption).getD []

/-- The elements of one kind and destination, in order. -/
def elementsOf (kind : ElementKind) (destination : Option Text) (files : Files) (path : Text) :
    List (AttributeMap × Option Text) :=
  Occurrence.select destination (((pageElements files path).filter kind.has).map kind.view)

/-- A start tag that bears a feature, for one parser or the other. -/
def watched (sourcePath name attributes : Text) : Bool :=
  name ∈ ["script".toList, "iframe".toList, "form".toList] ||
    (ChangeSet.parseAttributes attributes).any (·.1 == "download".toList) ||
    (StaticExport.parseAttributes sourcePath attributes).toOption.any (·.any (·.1 == "download".toList))

/-- Both parsers read the attributes of a watched start tag alike, and no name stands with two values. -/
def Unambiguous (sourcePath name attributes : Text) : Prop :=
  watched sourcePath name attributes = true →
    (∀ u, Visits (StaticExport.attributeStep sourcePath) attributes u → unquotedSlash u = false) ∧
    ∀ read ∈ (StaticExport.parseAttributes sourcePath attributes).toOption, NoConflict read ∧ Short read

instance (sourcePath name attributes : Text) : Decidable (Unambiguous sourcePath name attributes) :=
  decidable_of_iff (watched sourcePath name attributes = true →
      (∀ u ∈ trail (StaticExport.attributeStep sourcePath) attributes, unquotedSlash u = false) ∧
      ∀ read ∈ (StaticExport.parseAttributes sourcePath attributes).toOption, NoConflict read ∧ Short read)
    (by simp only [mem_trail (StaticExport.attributeStep_productive sourcePath)]; rfl)

/-- The behaviour gate reads the elements of `text` as the strict parsers do. -/
abbrev ElementsReadable (sourcePath text : Text) : Prop :=
  ReadAlike (Unambiguous sourcePath) sourcePath text

/-! ## Their sightings -/

def ElementKind.standIn : ElementKind → Text
  | script => "inline-script".toList
  | iframe => "inline-frame".toList
  | form => []
  | download => "download-attribute".toList

theorem standIn_script : ElementKind.script.standIn = "inline-script".toList := rfl

/-- What the gate counts an element under. -/
def ElementKind.key (kind : ElementKind) (e : Element) : Text := (kind.destination e).getD kind.standIn

def ElementKind.print (K : Crates) (kind : ElementKind) (e : Element) : Text :=
  let attributesSha256 := canonicalAttributesSha256 K e.1.attributes
  if kind = script ∧ kind.key e = "inline-script".toList then
    attributesSha256 ++ ":".toList ++ K.sha256 (encode e.2)
  else attributesSha256

theorem eventSightings_counter {K : Crates} {tag : MarkupTag} (kind : ElementKind) :
    (eventSightings K tag).filter (·.1.1 = kind.counter) = [] := by
  rw [List.filter_eq_nil_iff]
  intro s hs
  simp only [eventSightings, List.mem_map] at hs
  obtain ⟨a, -, rfl⟩ := hs
  cases kind <;> simp [ElementKind.counter]

theorem getAttribute_none {attributes : List (Text × Text)} {name : Text}
    (h : attributes.any (·.1 == name) = false) : getAttribute attributes name = none := by
  have hfind : attributes.reverse.find? (·.1 == name) = none := by
    rw [List.find?_eq_none]
    intro a ha
    exact List.any_eq_false.mp h a (List.mem_reverse.mp ha)
  rw [getAttribute, hfind]
  rfl

theorem effective_none {attributes : List (Text × Text)} {name : Text}
    (h : attributes.any (·.1 == name) = false) : (effectiveAttributes attributes)[name]? = none := by
  cases heff : (effectiveAttributes attributes)[name]? with
  | none => rfl
  | some value =>
    have := List.any_eq_false.mp h _ (effective_mem heff)
    simp at this

/-- A tag that is not watched bears none of the features. -/
theorem sightings_unwatched {K : Crates} {tag : MarkupTag} (kind : ElementKind)
    (hscript : tag.name ≠ "script".toList) (hiframe : tag.name ≠ "iframe".toList)
    (hform : tag.name ≠ "form".toList)
    (hdownload : tag.attributes.any (·.1 == "download".toList) = false) :
    (tagSightings K tag).filter (·.1.1 = kind.counter) = [] := by
  have helement : elementSightings K tag = [] := by
    simp only [elementSightings, hscript, hiframe, hform, ↓reduceIte]
  have hdown : downloadSightings K tag = [] := by
    simp only [downloadSightings, getAttribute_none hdownload, Option.isSome_none, Bool.false_eq_true,
      ↓reduceIte]
  simp only [tagSightings, helement, hdown, List.append_nil]
  split
  · rfl
  · exact eventSightings_counter kind

/-- A tag of another name bears no sighting of the kind. -/
theorem elementSightings_other {K : Crates} {tag : MarkupTag} {kind : FeatureKind} {name : Text}
    (hkind : kind = .script ∧ name = "script".toList ∨ kind = .iframe ∧ name = "iframe".toList ∨
      kind = .form ∧ name = "form".toList) (hname : tag.name ≠ name) :
    (elementSightings K tag).filter (·.1.1 = kind) = [] := by
  rw [List.filter_eq_nil_iff]
  intro s hs hcounter
  have hcounter := of_decide_eq_true hcounter
  obtain ⟨hk, hn⟩ | ⟨hk, hn⟩ | ⟨hk, hn⟩ := elementSightings_kind s hs <;>
    obtain ⟨rfl, rfl⟩ | ⟨rfl, rfl⟩ | ⟨rfl, rfl⟩ := hkind <;>
    first | exact hname hn | (rw [hk] at hcounter; cases hcounter)

theorem scriptSightings_counter {K : Crates} {e : Element} {tag : MarkupTag}
    (hname : tag.name = e.1.name) (hopen : e.1.closing = false)
    (hbody : e.1.name = "script".toList → tag.bodySha256 = some (K.sha256 (encode e.2)))
    (hattrs : tag.attributes = e.1.attributes) (hc : NoConflict e.1.attributes) :
    (elementSightings K tag).filter (·.1.1 = .script) = if ElementKind.script.has e then
      [((.script, ElementKind.script.key e), ElementKind.script.key e, ElementKind.script.print K e)]
      else [] := by
  by_cases hn : e.1.name = "script".toList
  · have hhas : ElementKind.script.has e = true := by simp only [ElementKind.has, hopen, hn]; rfl
    rw [hhas, if_pos rfl]
    simp only [elementSightings, hname, hn, hattrs, getAttribute_effective hc, hbody hn]
    rw [if_neg (by decide), if_pos trivial]
    simp only [decide_true, List.filter_cons_of_pos, List.filter_nil, ElementKind.print, ElementKind.key,
      ElementKind.destination, standIn_script, true_and, Option.getD_some]
  · have hhas : ElementKind.script.has e = false := by
      simp only [ElementKind.has, beq_false_of_ne hn, Bool.and_false]
    rw [hhas, if_neg Bool.false_ne_true]
    exact elementSightings_other (.inl ⟨rfl, rfl⟩) (hname ▸ hn)

theorem iframeSightings_counter {K : Crates} {e : Element} {tag : MarkupTag}
    (hname : tag.name = e.1.name) (hopen : e.1.closing = false)
    (hattrs : tag.attributes = e.1.attributes) (hc : NoConflict e.1.attributes) :
    (elementSightings K tag).filter (·.1.1 = .iframe) = if ElementKind.iframe.has e then
      [((.iframe, ElementKind.iframe.key e), ElementKind.iframe.key e, ElementKind.iframe.print K e)]
      else [] := by
  by_cases hn : e.1.name = "iframe".toList
  · have hhas : ElementKind.iframe.has e = true := by simp only [ElementKind.has, hopen, hn]; rfl
    rw [hhas, if_pos rfl]
    simp only [elementSightings, hname, hn, hattrs, getAttribute_effective hc]
    rw [if_neg (by decide), if_neg (by decide), if_pos trivial]
    rfl
  · have hhas : ElementKind.iframe.has e = false := by
      simp only [ElementKind.has, beq_false_of_ne hn, Bool.and_false]
    rw [hhas, if_neg Bool.false_ne_true]
    exact elementSightings_other (.inr (.inl ⟨rfl, rfl⟩)) (hname ▸ hn)

theorem formSightings_counter {K : Crates} {e : Element} {tag : MarkupTag}
    (hname : tag.name = e.1.name) (hopen : e.1.closing = false)
    (hattrs : tag.attributes = e.1.attributes) (hc : NoConflict e.1.attributes) :
    (elementSightings K tag).filter (·.1.1 = .form) = if ElementKind.form.has e then
      [((.form, ElementKind.form.key e), ElementKind.form.key e, ElementKind.form.print K e)]
      else [] := by
  by_cases hn : e.1.name = "form".toList
  · simp only [elementSightings, hname, hn, hattrs, getAttribute_effective hc, ElementKind.has, hopen,
      ElementKind.key, ElementKind.destination]
    rw [if_pos trivial]
    cases (effectiveAttributes e.1.attributes)["action".toList]? with
    | none => rfl
    | some action => rfl
  · have hhas : ElementKind.form.has e = false := by
      simp only [ElementKind.has, beq_false_of_ne hn, Bool.false_and, Bool.and_false]
    rw [hhas, if_neg Bool.false_ne_true]
    exact elementSightings_other (.inr (.inr ⟨rfl, rfl⟩)) (hname ▸ hn)

theorem downloadSightings_counter {K : Crates} {e : Element} {tag : MarkupTag}
    (hopen : e.1.closing = false) (hattrs : tag.attributes = e.1.attributes)
    (hc : NoConflict e.1.attributes) :
    downloadSightings K tag = if ElementKind.download.has e then
      [((.download, ElementKind.download.key e), ElementKind.download.key e, ElementKind.download.print K e)]
      else [] := by
  simp only [downloadSightings, hattrs, getAttribute_effective hc, ElementKind.has, hopen, Bool.not_false,
    Bool.true_and]
  rfl

/-- Under the counter of a kind, a tag with unambiguous attributes is sighted as the element it is. -/
theorem sightings_watched {K : Crates} {e : Element} {tag : MarkupTag} (kind : ElementKind)
    (hname : tag.name = e.1.name) (hopen : tag.closing = false) (hopen' : e.1.closing = false)
    (hbody : e.1.name = "script".toList → tag.bodySha256 = some (K.sha256 (encode e.2)))
    (hattrs : tag.attributes = e.1.attributes) (hc : NoConflict e.1.attributes) :
    (tagSightings K tag).filter (·.1.1 = kind.counter) =
      if kind.has e then [((kind.counter, kind.key e), kind.key e, kind.print K e)] else [] := by
  simp only [tagSightings, hopen, Bool.false_eq_true, ↓reduceIte, List.filter_append,
    eventSightings_counter, List.nil_append]
  have hdown : ∀ counter : FeatureKind, counter ≠ .download →
      (downloadSightings K tag).filter (·.1.1 = counter) = [] := by
    intro counter hne
    rw [List.filter_eq_nil_iff]
    intro s hs hcounter
    rw [downloadSightings_kind s hs] at hcounter
    exact hne (of_decide_eq_true hcounter).symm
  cases kind with
  | script =>
    rw [ElementKind.counter, hdown _ (by decide), List.append_nil,
      scriptSightings_counter hname hopen' hbody hattrs hc]
  | iframe =>
    rw [ElementKind.counter, hdown _ (by decide), List.append_nil,
      iframeSightings_counter hname hopen' hattrs hc]
  | form =>
    rw [ElementKind.counter, hdown _ (by decide), List.append_nil,
      formSightings_counter hname hopen' hattrs hc]
  | download =>
    have helement : (elementSightings K tag).filter (·.1.1 = .download) = [] := by
      rw [List.filter_eq_nil_iff]
      intro s hs
      obtain ⟨h, -⟩ | ⟨h, -⟩ | ⟨h, -⟩ := elementSightings_kind s hs <;> simp [h]
    rw [ElementKind.counter, helement, List.nil_append, downloadSightings_counter hopen' hattrs hc]
    split
    · rfl
    · rfl

theorem effective_isSome {attributes : List (Text × Text)} {name : Text}
    (h : (effectiveAttributes attributes)[name]?.isSome = true) : attributes.any (·.1 == name) = true := by
  cases hany : attributes.any (·.1 == name) with
  | true => rfl
  | false =>
    rw [effective_none hany] at h
    cases h

/-- An element of a kind comes from a watched start tag. -/
theorem watched_of_has {kind : ElementKind} {e : Element} {sourcePath rest : Text}
    (hstrict : StaticExport.parseAttributes sourcePath rest = .ok e.1.attributes)
    (h : kind.has e = true) : watched sourcePath e.1.name rest = true := by
  simp only [ElementKind.has, Bool.and_eq_true] at h
  simp only [watched, hstrict, Except.toOption, Option.any_some, Bool.or_eq_true, decide_eq_true_eq,
    List.mem_cons, List.not_mem_nil, or_false]
  cases kind with
  | script => exact .inl (.inl (.inl (eq_of_beq h.2)))
  | iframe => exact .inl (.inl (.inr (.inl (eq_of_beq h.2))))
  | form => exact .inl (.inl (.inr (.inr (eq_of_beq (Bool.and_eq_true_iff.mp h.2).1))))
  | download => exact .inr (effective_isSome h.2)

section
variable {K : Crates} {path : Text} {e : Element} {tag : MarkupTag}

theorem sightings_same (h : SameElement K path (Unambiguous path) e tag) (kind : ElementKind) :
    (tagSightings K tag).filter (·.1.1 = kind.counter) =
      if kind.has e then [((kind.counter, kind.key e), kind.key e, kind.print K e)] else [] := by
  obtain ⟨hname, hclosing, hbody, ⟨hc, -, -⟩ | ⟨hc, rest, hclear, hstrict, hlenient⟩⟩ := h
  · have hhas : kind.has e = false := by simp only [ElementKind.has, hc, Bool.not_true, Bool.false_and]
    rw [hhas, tagSightings, hclosing, hc]
    rfl
  · rw [hc] at hclosing
    by_cases hwatched : watched path e.1.name rest = true
    · obtain ⟨hplain, hread⟩ := hclear hwatched
      have hattrs : tag.attributes = e.1.attributes := by
        rw [hlenient, parseAttributes_agree hstrict hplain]
      refine sightings_watched kind hname hclosing hc (fun hscript => ?_) hattrs
        (hread e.1.attributes (by rw [hstrict]; rfl)).1
      rw [hbody, if_pos ⟨hc, hscript⟩]
    · have hhas : kind.has e = false :=
        Bool.eq_false_of_not_eq_true fun h => hwatched (watched_of_has hstrict h)
      rw [hhas, if_neg Bool.false_ne_true]
      simp only [watched, Bool.or_eq_true, not_or, Bool.not_eq_true, decide_eq_true_eq, List.mem_cons,
        List.not_mem_nil, or_false] at hwatched
      obtain ⟨⟨⟨hscript, hiframe, hform⟩, hdownload⟩, -⟩ := hwatched
      exact sightings_unwatched kind (hname ▸ hscript) (hname ▸ hiframe) (hname ▸ hform)
        (hlenient ▸ hdownload)

theorem clear_of_has (h : SameElement K path (Unambiguous path) e tag) {kind : ElementKind}
    (hhas : kind.has e = true) : NoConflict e.1.attributes ∧ Short e.1.attributes := by
  obtain ⟨-, -, -, ⟨hc, -, -⟩ | ⟨-, rest, hclear, hstrict, -⟩⟩ := h
  · simp only [ElementKind.has, hc, Bool.not_true, Bool.false_and, Bool.false_eq_true] at hhas
  · exact (hclear (watched_of_has hstrict hhas)).2 e.1.attributes (by rw [hstrict]; rfl)

end

/-! ## Pages -/

/-- The gate counts the elements of a readable page, each under its kind and key. -/
theorem pageElements_readable {K : Crates} {files : Files} {path text : Text}
    (hpage : pageText files path = some text) (hread : ElementsReadable path text) (kind : ElementKind) :
    (∀ key, Occurrence.select (kind.counter, key) (pageSightings K files path) =
      (((pageElements files path).filter kind.has).filter (kind.key · = key)).map
        fun e => (kind.key e, kind.print K e)) ∧
    ∀ e ∈ (pageElements files path).filter kind.has, NoConflict e.1.attributes ∧ Short e.1.attributes := by
  obtain ⟨all, hall, hsame⟩ := hread.same (K := K)
  have helements : pageElements files path = all := by
    simp [pageElements, hpage, hall, Except.toOption]
  have htags : pageSightings K files path =
      (scanMarkupTags K text (htmlMode path)).flatMap (tagSightings K) := by
    simp only [pageSightings, pageTags, hpage, htmlMode_agree]
  rw [helements, htags]
  clear hall helements htags
  generalize scanMarkupTags K text (htmlMode path) = tags at hsame
  induction hsame with
  | nil => exact ⟨fun key => rfl, fun e he => absurd he List.not_mem_nil⟩
  | cons hhead _ ih =>
    rename_i e tag all tags _
    constructor
    · intro key
      have hcount : Occurrence.select (kind.counter, key) (tagSightings K tag) =
          Occurrence.select (kind.counter, key)
            ((tagSightings K tag).filter (·.1.1 = kind.counter)) := by
        simp only [Occurrence.select, List.filter_filter]
        refine congrArg _ (List.filter_congr fun s _ => ?_)
        by_cases hs : s.1 = (kind.counter, key)
        · simp [hs]
        · simp [hs]
      rw [List.flatMap_cons, Occurrence.select_append, ih.1, hcount, sightings_same hhead,
        List.filter_cons]
      cases hhas : kind.has e with
      | false => simp [Occurrence.select]
      | true =>
        by_cases hkey : kind.key e = key
        · simp [Occurrence.select, hkey]
        · simp [Occurrence.select, hkey]
    · intro x hx
      rw [List.filter_cons] at hx
      split at hx
      · rename_i hhas
        rcases List.mem_cons.mp hx with rfl | hx
        · exact clear_of_has hhead hhas
        · exact ih.2 x hx
      · exact ih.2 x hx

/-- SHA-256 does not collide on the attributes or on the bodies of two elements. -/
def Distinguished (K : Crates) (x y : Element) : Prop :=
  (K.sha256Digest (canonicalAttributes x.1.attributes) = K.sha256Digest (canonicalAttributes y.1.attributes) →
    canonicalAttributes x.1.attributes = canonicalAttributes y.1.attributes) ∧
  (K.sha256Digest (encode x.2) = K.sha256Digest (encode y.2) → x.2 = y.2)

instance (K : Crates) (x y : Element) : Decidable (Distinguished K x y) :=
  inferInstanceAs (Decidable (_ ∧ _))

theorem sha256_length (K : Crates) (bytes : Bytes) : (K.sha256 bytes).length = 64 := by
  simp [Crates.sha256, List.length_flatMap, Crates.hexByte]

/-- Elements with equal keys and prints have equal views. -/
theorem view_of_print {K : Crates} {kind : ElementKind} {x y : Element}
    (hx : NoConflict x.1.attributes ∧ Short x.1.attributes)
    (hy : NoConflict y.1.attributes ∧ Short y.1.attributes)
    (hsha : Distinguished K x y) (hkey : kind.key x = kind.key y) (hprint : kind.print K x = kind.print K y) :
    kind.view x = kind.view y := by
  have hparts : canonicalAttributesSha256 K x.1.attributes = canonicalAttributesSha256 K y.1.attributes ∧
      (kind = .script ∧ kind.key y = "inline-script".toList → K.sha256 (encode x.2) = K.sha256 (encode y.2)) := by
    simp only [ElementKind.print, hkey] at hprint
    by_cases hinline : kind = .script ∧ kind.key y = "inline-script".toList
    · rw [if_pos hinline, if_pos hinline, List.append_assoc, List.append_assoc] at hprint
      have hlen : (canonicalAttributesSha256 K x.1.attributes).length =
          (canonicalAttributesSha256 K y.1.attributes).length := by
        rw [canonicalAttributesSha256, canonicalAttributesSha256, sha256_length, sha256_length]
      obtain ⟨hsha, hrest⟩ := List.append_inj hprint hlen
      exact ⟨hsha, fun _ => List.append_cancel_left hrest⟩
    · rw [if_neg hinline, if_neg hinline] at hprint
      exact ⟨hprint, fun h => absurd h hinline⟩
  have hmap : effectiveAttributes x.1.attributes = effectiveAttributes y.1.attributes := by
    have hcanonical := hsha.1 ((K.sha256_eq_iff _ _).mp hparts.1)
    exact effective_perm (canonicalAttributes_perm hx.2 hy.2 hcanonical) hx.1 hy.1
  have hdest : kind.destination x = kind.destination y := by
    simp only [ElementKind.destination, hmap]
  simp only [ElementKind.view, hdest, hmap]
  by_cases hinline : kind = .script ∧ kind.destination y = none
  · obtain ⟨rfl, hnone⟩ := hinline
    have hdefault : ElementKind.script.key y = "inline-script".toList := by
      rw [ElementKind.key, hnone, Option.getD_none, standIn_script]
    rw [hsha.2 ((K.sha256_eq_iff _ _).mp (hparts.2 ⟨rfl, hdefault⟩))]
  · rw [if_neg hinline, if_neg hinline]

theorem pageText_of_element {files : Files} {path : Text} {e : Element} (h : e ∈ pageElements files path) :
    ∃ text, pageText files path = some text := by
  cases hpage : pageText files path with
  | none => rw [pageElements, hpage] at h; cases h
  | some text => exact ⟨text, rfl⟩

/-- A page with an inline script, reworded. -/
def scriptPage (word : String) : Text := "<script>x()</script>".toList ++ word.toList

def scriptGate : Gate := replacementGate (scriptPage "Old") (scriptPage "New")

/-- A script element with two types; the first one counts. -/
def typedPage (first second : String) : Text :=
  "<script ".toList ++ first.toList ++ ' ' :: second.toList ++ ">x()</script>".toList

def typedGate : Gate := replacementGate (typedPage "type=a" "type") (typedPage "type" "type=a")

end LpStudio.ChangeSet
