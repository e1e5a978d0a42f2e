import LpStudio.ChangeSet.Elements

/-! # Form destinations
Where the forms of a page send: the actions of the forms and the overrides of their submit controls. The behaviour
gate follows the actions only.
-/
namespace LpStudio.ChangeSet
open Str Scanning Markup

/-! ## Destinations -/

/-- The values of an attribute, whatever its number. -/
def valuesOfAttribute (name : String) (tag : StaticExport.MarkupTag) : List Text :=
  (tag.attributes.filter (·.1 = name.toList)).map (·.2)

/-- A button submits unless its effective type says otherwise, an input only if it says so. -/
def isSubmitControl (tag : StaticExport.MarkupTag) : Bool :=
  let type := ((effectiveAttributes tag.attributes)["type".toList]?).map lower
  if tag.name = "button".toList then type ∉ [some "button".toList, some "reset".toList]
  else tag.name = "input".toList && type ∈ [some "submit".toList, some "image".toList]

def formActions (tag : StaticExport.MarkupTag) : List Text :=
  if tag.closing = false ∧ tag.name = "form".toList then valuesOfAttribute "action" tag else []

def formOverrides (tag : StaticExport.MarkupTag) : List Text :=
  if tag.closing = false ∧ isSubmitControl tag = true then valuesOfAttribute "formaction" tag else []

/-- The submission destinations of the page at `path`, as the reference scanner reads it. -/
def pageDestinations (files : Files) (path : Text) : List Text :=
  (pageElements files path).flatMap fun e => formActions e.1 ++ formOverrides e.1

def pageOverrides (files : Files) (path : Text) : List Text :=
  (pageElements files path).flatMap fun e => formOverrides e.1

/-- Both parsers read the attributes of a form alike. -/
def PlainForm (sourcePath name attributes : Text) : Prop :=
  name = "form".toList →
    (∀ u, Visits (StaticExport.attributeStep sourcePath) attributes u → unquotedSlash u = false) ∧
    ∀ read ∈ (StaticExport.parseAttributes sourcePath attributes).toOption, Short read

instance (sourcePath name attributes : Text) : Decidable (PlainForm sourcePath name attributes) :=
  decidable_of_iff (name = "form".toList →
      (∀ u ∈ trail (StaticExport.attributeStep sourcePath) attributes, unquotedSlash u = false) ∧
      ∀ read ∈ (StaticExport.parseAttributes sourcePath attributes).toOption, Short read)
    (by simp only [mem_trail (StaticExport.attributeStep_productive sourcePath), PlainForm])

/-- The behaviour gate reads the forms of `text` as the strict parsers do. -/
abbrev FormsReadable (sourcePath text : Text) : Prop := ReadAlike (PlainForm sourcePath) sourcePath text

/-! ## What the gate sees of them -/

theorem forall₂_mem_left {α β : Type} {R : α → β → Prop} {xs : List α} {ys : List β} (h : List.Forall₂ R xs ys)
    {x : α} (hx : x ∈ xs) : ∃ y ∈ ys, R x y := by
  induction h with
  | nil => cases hx
  | @cons a b xs ys hab _ ih =>
    rcases List.mem_cons.mp hx with rfl | hx
    · exact ⟨b, List.mem_cons_self, hab⟩
    · obtain ⟨y, hy, hxy⟩ := ih hx
      exact ⟨y, List.mem_cons_of_mem b hy, hxy⟩

section
variable {K : Crates} {files : Files} {path text : Text}

/-- The elements of a readable page and the tags of the gate, one by one. -/
theorem pageElements_tags {P : Text → Text → Prop} (hpage : pageText files path = some text)
    (hread : ReadAlike P path text) :
    List.Forall₂ (SameElement K path P) (pageElements files path) (pageTags K files path) := by
  obtain ⟨all, hall, hsame⟩ := hread.same (K := K)
  have helements : pageElements files path = all := by
    simp [pageElements, hpage, hall, Except.toOption]
  have htags : pageTags K files path = scanMarkupTags K text (htmlMode path) := by
    simp only [pageTags, hpage, htmlMode_agree]
  rw [helements, htags]
  exact hsame

/-- The start tag of a form is the same for both parsers. -/
theorem form_attributes {e : Element} {tag : MarkupTag}
    (h : SameElement K path (PlainForm path) e tag) (hopen : e.1.closing = false) (hname : e.1.name = "form".toList) :
    tag.closing = false ∧ tag.name = "form".toList ∧ tag.attributes = e.1.attributes ∧ Short e.1.attributes := by
  obtain ⟨htag, hclosing, -, ⟨hc, -, -⟩ | ⟨-, rest, hclear, hstrict, hlenient⟩⟩ := h
  · rw [hopen] at hc
    cases hc
  · obtain ⟨hplain, hshort⟩ := hclear hname
    refine ⟨hclosing.trans hopen, htag.trans hname, ?_, hshort e.1.attributes (by rw [hstrict]; rfl)⟩
    rw [hlenient, parseAttributes_agree hstrict hplain]

/-- The gate counts every form with an action, under a fingerprint of all its attributes. -/
theorem form_sighted (hpage : pageText files path = some text) (hread : FormsReadable path text) {e : Element}
    (he : e ∈ pageElements files path) {destination : Text} (hd : destination ∈ formActions e.1) :
    Short e.1.attributes ∧ ∃ action, ((FeatureKind.form, action), action, canonicalAttributesSha256 K e.1.attributes) ∈
      pageSightings K files path := by
  unfold formActions at hd
  split at hd
  · next hform =>
    obtain ⟨tag, htag, hsame⟩ := forall₂_mem_left (pageElements_tags (K := K) hpage hread) he
    obtain ⟨hopen, hname, hattrs, hshort⟩ := form_attributes hsame hform.1 hform.2
    have hsome : ∃ action, getAttribute e.1.attributes "action".toList = some action := by
      obtain ⟨⟨name, value⟩, hmem, -⟩ := List.mem_map.mp hd
      obtain ⟨hmem, hkey⟩ := List.mem_filter.mp hmem
      have hfound : (e.1.attributes.reverse.find? (·.1 == "action".toList)).isSome = true :=
        List.find?_isSome.mpr ⟨(name, value), List.mem_reverse.mpr hmem, by simpa using hkey⟩
      obtain ⟨found, hfound⟩ := Option.isSome_iff_exists.mp hfound
      exact ⟨found.2, by rw [getAttribute, hfound]; rfl⟩
    obtain ⟨action, haction⟩ := hsome
    refine ⟨hshort, action, List.mem_flatMap.mpr ⟨tag, htag, ?_⟩⟩
    have hsighting : elementSightings K tag =
        [((.form, action), action, canonicalAttributesSha256 K e.1.attributes)] := by
      simp only [elementSightings, hname, hattrs, haction, ↓reduceIte]
    rw [tagSightings, hopen, if_neg Bool.false_ne_true, hsighting]
    exact List.mem_append_left _ (List.mem_append_right _ (List.mem_singleton_self _))
  · cases hd

/-- What the gate counts as a form is one, with these attributes. -/
theorem sighted_form (hpage : pageText files path = some text) (hread : FormsReadable path text)
    {key action print : Text} (h : ((FeatureKind.form, key), action, print) ∈ pageSightings K files path) :
    ∃ e ∈ pageElements files path, e.1.closing = false ∧ e.1.name = "form".toList ∧ Short e.1.attributes ∧
      print = canonicalAttributesSha256 K e.1.attributes := by
  obtain ⟨tag, htag, h⟩ := List.mem_flatMap.mp h
  unfold tagSightings at h
  split at h
  · cases h
  · next hclosing =>
    have hopen : tag.closing = false := Bool.eq_false_of_not_eq_true hclosing
    rcases List.mem_append.mp h with h | h
    · rcases List.mem_append.mp h with h | h
      · simp only [eventSightings, List.mem_map] at h
        obtain ⟨a, -, h⟩ := h
        cases h
      · obtain ⟨-, hname⟩ | ⟨hkind, -⟩ | ⟨hkind, -⟩ := elementSightings_kind _ h
        · obtain ⟨e, he, hsame⟩ := forall₂_mem_left (pageElements_tags (K := K) hpage hread).flip htag
          have hsame : SameElement K path (PlainForm path) e tag := hsame
          obtain ⟨-, -, hattrs, hshort⟩ := form_attributes hsame (hsame.2.1 ▸ hopen) (hsame.1 ▸ hname)
          refine ⟨e, he, hsame.2.1 ▸ hopen, hsame.1 ▸ hname, hshort, ?_⟩
          unfold elementSightings at h
          rw [if_pos hname] at h
          split at h
          · rw [← hattrs]
            exact (Prod.mk.inj (Prod.mk.inj (List.mem_singleton.mp h)).2).2
          · cases h
        · cases hkind
        · cases hkind
    · cases downloadSightings_kind _ h

end

/-! ## Accepted ChangeSets -/

/-- The actions of the forms are reviewed: those of a result without warnings stood in the accepted page. -/
theorem actions_reviewed {G : Gate} {raw base : Text} {accepted : Files} {result : AppliedChangeSet}
    (haccept : parseAndApplyChangeSet G raw base accepted = .ok result) (hnone : result.blockingWarnings = [])
    {path text : Text} (hpage : pageText result.files path = some text) (hnew : FormsReadable path text)
    (hold : ∀ before, pageText accepted path = some before → FormsReadable path before)
    (hsha : ∀ new ∈ pageElements result.files path, ∀ old ∈ pageElements accepted path,
      Distinguished G.crates new old)
    {e : Element} (he : e ∈ pageElements result.files path) {destination : Text} (hd : destination ∈ formActions e.1) :
    destination ∈ pageDestinations accepted path := by
  obtain ⟨hshort, action, hsighted⟩ := form_sighted (K := G.crates) hpage hnew he hd
  have hselect : (action, canonicalAttributesSha256 G.crates e.1.attributes) ∈
      Occurrence.select (FeatureKind.form, action) (pageSightings G.crates accepted path) := by
    refine (sightings_extend haccept hnone path (.form, action)).subset ?_
    exact List.mem_map.mpr ⟨_, List.mem_filter.mpr ⟨hsighted, decide_eq_true rfl⟩, rfl⟩
  obtain ⟨sighting, hmem, heq⟩ := List.mem_map.mp hselect
  obtain ⟨hcounted, hkey⟩ := List.mem_filter.mp hmem
  obtain ⟨⟨kind, key⟩, dest, print⟩ := sighting
  obtain ⟨rfl, rfl⟩ := Prod.mk.inj (of_decide_eq_true hkey)
  obtain ⟨rfl, rfl⟩ := Prod.mk.inj heq
  cases hbefore : pageText accepted path with
  | none =>
    rw [pageSightings, pageTags, hbefore] at hcounted
    cases hcounted
  | some before =>
    obtain ⟨e', he', hopen', hname', hshort', hprint⟩ := sighted_form hbefore (hold before hbefore) hcounted
    have hdigest : G.crates.sha256Digest (canonicalAttributes e.1.attributes) =
        G.crates.sha256Digest (canonicalAttributes e'.1.attributes) := (G.crates.sha256_eq_iff _ _).mp hprint
    have hperm := canonicalAttributes_perm hshort hshort' ((hsha e he e' he').1 hdigest)
    refine List.mem_flatMap.mpr ⟨e', he', List.mem_append_left _ ?_⟩
    unfold formActions at hd ⊢
    rw [if_pos ⟨hopen', hname'⟩]
    split at hd
    · exact ((hperm.filter _).map _).mem_iff.mp hd
    · cases hd

/-- A form with a button, reworded. -/
def formPage (word : String) : Text :=
  "<form action='#top'><button>".toList ++ word.toList ++ "</button></form>".toList

def formGate : Gate := replacementGate (formPage "Old") (formPage "New")

def overriddenPage : Text := "<form action='#top'><button formaction='index.html'>Old</button></form>".toList

def overriddenGate : Gate := replacementGate (formPage "Old") overriddenPage

end LpStudio.ChangeSet
