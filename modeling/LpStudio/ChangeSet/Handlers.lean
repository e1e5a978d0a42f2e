import LpStudio.ChangeSet.Lemmas.MediaType
import LpStudio.ChangeSet.Lemmas.Sightings
import LpStudio.Markup.Attributes

/-! # Inline event handlers
The handlers of a page as the reference scanner reads them, and when the behaviour gate sees the same.
-/
namespace LpStudio.ChangeSet
open Str Scanning Markup

/-- A handler attribute with something to run. -/
def isHandler : Text × Text → Bool
  | (name, value) => isInlineEventHandlerAttribute name && !(trim value).isEmpty

/-- Tag name, attribute name and complete value of every handler of a tag. -/
def handlersOf (tag : StaticExport.MarkupTag) : List (Text × Text × Text) :=
  (tag.attributes.filter isHandler).map fun (name, value) => (tag.name, name, value)

/-- The inline event handlers of a text by the strict parsers. -/
def inlineHandlers (sourcePath text : Text) :
    Except StaticExport.StaticExportError (List (Text × Text × Text)) :=
  (StaticExport.scanMarkupTags sourcePath text).map fun tags => tags.flatMap handlersOf

/-- The inline event handlers of the page at `path`; none where the strict scanner fails. -/
def pageHandlers (files : Files) (path : Text) : List (Text × Text × Text) :=
  ((pageText files path).bind fun text => (inlineHandlers path text).toOption).getD []

/-- No handler attribute of `attributes` has an unquoted value with a `/` in it. -/
def HandlersUncut (sourcePath attributes : Text) : Prop :=
  ∀ u, Visits (StaticExport.attributeStep sourcePath) attributes u → unquotedSlash u = true →
    isInlineEventHandlerAttribute (attributeName u) = false

instance (sourcePath attributes : Text) : Decidable (HandlersUncut sourcePath attributes) :=
  decidable_of_iff (∀ u ∈ trail (StaticExport.attributeStep sourcePath) attributes,
      unquotedSlash u = true → isInlineEventHandlerAttribute (attributeName u) = false)
    (by simp only [mem_trail (StaticExport.attributeStep_productive sourcePath)]; rfl)

/-- The behaviour gate reads the handlers of `text` as the strict parsers do. -/
abbrev HandlersReadable (sourcePath text : Text) : Prop :=
  ReadAlike (fun _ attributes => HandlersUncut sourcePath attributes) sourcePath text

/-- The sighting of one handler. -/
def handlerSighting (K : Crates) : Text × Text × Text → Sighting
  | (tag, name, value) => ((.event, tag ++ ":".toList ++ name),
      tag ++ "[".toList ++ name ++ "]".toList, K.sha256 (encode value))

theorem isHandler_blank (name : Text) : isHandler (name, []) = false := by
  simp [isHandler, trim, trimStart, trimEnd]

/-- A start tag whose handlers are not cut bears the same handlers for both parsers. -/
theorem eventSightings_same {K : Crates} {path : Text} {e : StaticExport.MarkupTag × Text} {tag : MarkupTag}
    (h : SameElement K path (fun _ attributes => HandlersUncut path attributes) e tag) :
    (if tag.closing then [] else eventSightings K tag) = (handlersOf e.1).map (handlerSighting K) := by
  obtain ⟨hname, hclosing, -, ⟨hc, ha, -⟩ | ⟨hc, rest, huncut, hstrict, hlenient⟩⟩ := h
  · rw [hclosing, hc, if_pos rfl, handlersOf, ha]
    rfl
  · have hfilter : tag.attributes.filter isHandler = e.1.attributes.filter isHandler := by
      rw [hlenient]
      refine parseAttributes_filter isHandler_blank hstrict fun u hu hslash value _ => ?_
      simp only [isHandler, huncut u hu hslash, Bool.false_and, and_self]
    have hevents : eventSightings K tag = (tag.attributes.filter isHandler).map fun (name, value) =>
        handlerSighting K (tag.name, name, value) := rfl
    rw [hclosing, hc, if_neg Bool.false_ne_true, hevents, hfilter, hname, handlersOf, List.map_map]
    rfl

/-- On a readable page the gate sees exactly the handlers of the strict parsers. -/
theorem eventSightings_readable {K : Crates} {path text : Text} (h : HandlersReadable path text) :
    ∃ handlers, inlineHandlers path text = .ok handlers ∧
      (scanMarkupTags K text (htmlMode path)).flatMap
        (fun tag => if tag.closing then [] else eventSightings K tag) =
        handlers.map (handlerSighting K) := by
  obtain ⟨all, hall, hsame⟩ := h.same (K := K)
  have htags := elements_tags path text
  rw [hall] at htags
  refine ⟨(all.map Prod.fst).flatMap handlersOf, by rw [inlineHandlers, ← htags]; rfl, ?_⟩
  clear hall htags
  generalize scanMarkupTags K text (htmlMode path) = seen at hsame
  induction hsame with
  | nil => rfl
  | cons hhead _ ih =>
    simp only [List.flatMap_cons, List.map_cons, List.map_append, ih, eventSightings_same hhead]

/-! ## The counter of the handlers -/

/-- Only handlers are counted under `event`. -/
theorem select_event {K : Crates} {key : Text} (tags : List MarkupTag) :
    Occurrence.select (.event, key) (tags.flatMap (tagSightings K)) =
      Occurrence.select (.event, key)
        (tags.flatMap fun tag => if tag.closing then [] else eventSightings K tag) := by
  induction tags with
  | nil => rfl
  | cons tag tags ih =>
    simp only [List.flatMap_cons, Occurrence.select_append, ih, tagSightings]
    congr 1
    split
    · rfl
    · have helement : Occurrence.select (.event, key) (elementSightings K tag) = [] := by
        refine Occurrence.select_eq_nil fun s hs heq => ?_
        obtain ⟨h, -⟩ | ⟨h, -⟩ | ⟨h, -⟩ := elementSightings_kind s hs <;> rw [heq] at h <;> cases h
      have hdownload : Occurrence.select (.event, key) (downloadSightings K tag) = [] := by
        refine Occurrence.select_eq_nil fun s hs heq => ?_
        have := downloadSightings_kind s hs
        rw [heq] at this
        cases this
      rw [Occurrence.select_append, Occurrence.select_append, helement, hdownload, List.append_nil,
        List.append_nil]

/-- The values of one handler attribute of one kind of tag, in order. -/
def valuesOf (tag name : Text) (handlers : List (Text × Text × Text)) : List Text :=
  (handlers.filter fun handler => handler.1 = tag ∧ handler.2.1 = name).map (·.2.2)

theorem count_valuesOf (tag name value : Text) (handlers : List (Text × Text × Text)) :
    handlers.count (tag, name, value) = (valuesOf tag name handlers).count value := by
  induction handlers with
  | nil => rfl
  | cons handler handlers ih =>
    obtain ⟨t, n, v⟩ := handler
    simp only [valuesOf, List.filter_cons, List.count_cons] at ih ⊢
    by_cases hkey : t = tag ∧ n = name
    · obtain ⟨rfl, rfl⟩ := hkey
      have heq : ((t, n, v) == (t, n, value)) = (v == value) := by rw [Bool.eq_iff_iff]; simp
      rw [heq, ih]
      simp only [and_self, decide_true, ↓reduceIte, List.map_cons, List.count_cons]
    · have hne : ((t, n, v) == (tag, name, value)) = false := by
        simp only [beq_eq_false_iff_ne, ne_eq, Prod.mk.injEq]
        exact fun h => hkey ⟨h.1, h.2.1⟩
      simp [hkey, hne, ih]

theorem handlerName_noColon {name : Text} (h : isInlineEventHandlerAttribute name = true) : ':' ∉ name := by
  simp only [isInlineEventHandlerAttribute, Bool.and_eq_true, List.isPrefixOf_iff_prefix] at h
  obtain ⟨⟨-, rest, rfl⟩, hchars⟩ := h
  intro hmem
  rcases List.mem_append.mp hmem with hmem | hmem
  · revert hmem; decide
  · have := List.all_eq_true.mp hchars ':' (by simpa using hmem)
    revert this; decide

theorem handlerKey_inj {tag tag' name name' : Text} (hn : ':' ∉ name) (hn' : ':' ∉ name')
    (h : tag ++ ":".toList ++ name = tag' ++ ":".toList ++ name') : tag = tag' ∧ name = name' := by
  have hleft : rsplitOnce ':' (tag ++ ':' :: name) = some (tag, name) := rsplitOnce_append hn
  have hright : rsplitOnce ':' (tag' ++ ':' :: name') = some (tag', name') := rsplitOnce_append hn'
  have heq : tag ++ ':' :: name = tag' ++ ':' :: name' := by simpa using h
  rw [heq, hright] at hleft
  simpa [eq_comm] using hleft

/-- The sightings counted for one handler attribute of one kind of tag. -/
theorem select_handlers {K : Crates} {tag name : Text} {handlers : List (Text × Text × Text)}
    (hname : ':' ∉ name) (hnames : ∀ handler ∈ handlers, ':' ∉ handler.2.1) :
    Occurrence.select (.event, tag ++ ":".toList ++ name) (handlers.map (handlerSighting K)) =
      (valuesOf tag name handlers).map fun value =>
        (tag ++ "[".toList ++ name ++ "]".toList, K.sha256 (encode value)) := by
  induction handlers with
  | nil => rfl
  | cons handler handlers ih =>
    obtain ⟨t, n, v⟩ := handler
    have ih := ih fun handler hh => hnames handler (by simp [hh])
    simp only [List.map_cons, handlerSighting, valuesOf, List.filter_cons] at ih ⊢
    by_cases hkey : t = tag ∧ n = name
    · obtain ⟨rfl, rfl⟩ := hkey
      simp only [Occurrence.select_cons_self, ih, and_self, decide_true, ↓reduceIte, List.map_cons]
    · have hne : (FeatureKind.event, t ++ ":".toList ++ n) ≠ (.event, tag ++ ":".toList ++ name) := by
        intro heq
        exact hkey (handlerKey_inj (hnames (t, n, v) (by simp)) hname (Prod.mk.inj heq).2)
      simp only [Occurrence.select_cons_ne hne, ih, hkey, decide_false, Bool.false_eq_true, ↓reduceIte]

/-! ## The gate -/

theorem inlineHandlers_noColon {path text : Text} {handlers : List (Text × Text × Text)}
    (h : inlineHandlers path text = .ok handlers) : ∀ handler ∈ handlers, ':' ∉ handler.2.1 := by
  obtain ⟨tags, -, rfl⟩ := Outcome.map_ok.mp h
  intro handler hh
  obtain ⟨tag, -, hh⟩ := List.mem_flatMap.mp hh
  simp only [handlersOf, List.mem_map, List.mem_filter, Prod.exists] at hh
  obtain ⟨name, value, ⟨-, hname⟩, rfl⟩ := hh
  simp only [isHandler, Bool.and_eq_true] at hname
  exact handlerName_noColon hname.1

/-- What the gate counts for one handler attribute of a readable page. -/
theorem pageSightings_readable {K : Crates} {files : Files} {path text tag name : Text}
    (hpage : pageText files path = some text) (hread : HandlersReadable path text) (hname : ':' ∉ name) :
    Occurrence.select (.event, tag ++ ":".toList ++ name) (pageSightings K files path) =
      (valuesOf tag name (pageHandlers files path)).map fun value =>
        (tag ++ "[".toList ++ name ++ "]".toList, K.sha256 (encode value)) := by
  obtain ⟨handlers, hok, hevents⟩ := eventSightings_readable (K := K) hread
  have hhandlers : pageHandlers files path = handlers := by
    simp [pageHandlers, hpage, hok, Except.toOption]
  simp only [pageSightings, pageTags, hpage, select_event]
  rw [htmlMode_agree] at hevents
  rw [hevents, hhandlers, select_handlers hname (inlineHandlers_noColon hok)]

theorem pageSightings_none {K : Crates} {files : Files} {path : Text} (hpage : pageText files path = none) :
    pageSightings K files path = [] ∧ pageHandlers files path = [] := by
  simp [pageSightings, pageTags, pageHandlers, hpage]

theorem pageText_of_handler {files : Files} {path : Text} {handler : Text × Text × Text}
    (h : handler ∈ pageHandlers files path) : ∃ text, pageText files path = some text := by
  cases hpage : pageText files path with
  | none => rw [pageHandlers, hpage] at h; cases h
  | some text => exact ⟨text, rfl⟩

/-- A page with a handler, reworded. -/
def handlerPage (word : String) : Text := "<p onclick=\"f()\">".toList ++ word.toList

def handlerGate : Gate := replacementGate (handlerPage "Old") (handlerPage "New")

def strayPage (wording : String) : Text := "<!doctype html><p>1 < 2, isn't ".toList ++ wording.toList

def strayGate : Gate := replacementGate (strayPage "it") (strayPage "<b onclick=f()>it")

end LpStudio.ChangeSet
