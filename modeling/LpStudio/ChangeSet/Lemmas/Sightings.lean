import LpStudio.ChangeSet.Lemmas.Acceptance

/-! # What the fingerprints of a page determine
A numbered feature gives back the counter, the key, the occurrence number and the rest of its
fingerprint. So, key by key, the sightings of an accepted page are a prefix of those of the page it
replaces.
-/
namespace LpStudio.ChangeSet
open Str Scanning

/-! ## Reading a feature back -/

theorem decimal_injective {m n : ℕ} (h : decimal m = decimal n) : m = n := by
  have := congrArg (Nat.ofDigitChars 10 · 0) h
  simpa [decimal, Nat.ofDigitChars_ten_toDigits] using this

theorem decimal_noColon {n : ℕ} : ∀ c ∈ decimal n, c ≠ ':' := by
  rintro c hc rfl
  have := Nat.isDigit_of_mem_toDigits (by decide) (by decide) hc
  revert this; decide

/-- What stands in front of the first separator, and what follows it. -/
theorem append_separator_inj {c : Char} {a b x y : Text} (ha : ∀ d ∈ a, d ≠ c) (hb : ∀ d ∈ b, d ≠ c)
    (h : a ++ c :: x = b ++ c :: y) : a = b ∧ x = y := by
  induction a generalizing b with
  | nil => cases b with
    | nil => simpa using h
    | cons d ds =>
      simp only [List.nil_append, List.cons_append, List.cons.injEq] at h
      exact absurd h.1.symm (hb d (by simp))
  | cons d ds ih => cases b with
    | nil =>
      simp only [List.nil_append, List.cons_append, List.cons.injEq] at h
      exact absurd h.1 (ha d (by simp))
    | cons e es =>
      simp only [List.cons_append, List.cons.injEq] at h
      obtain ⟨rfl, h⟩ := h
      obtain ⟨rfl, hxy⟩ := ih (fun f hf => ha f (by simp [hf])) (fun f hf => hb f (by simp [hf])) h
      exact ⟨rfl, hxy⟩

theorem fingerprint_inj {m n : ℕ} {x y : Text}
    (h : decimal m ++ ":".toList ++ x = decimal n ++ ":".toList ++ y) : m = n ∧ x = y := by
  have h' : decimal m ++ ':' :: x = decimal n ++ ':' :: y := by simpa using h
  obtain ⟨hmn, hxy⟩ := append_separator_inj decimal_noColon decimal_noColon h'
  exact ⟨decimal_injective hmn, hxy⟩

theorem FeatureKind.code_injective : ∀ {a b : FeatureKind}, a.code = b.code → a = b := by
  intro a b h
  cases a <;> cases b <;> first | rfl | exact absurd h (by decide)

/-- The key a sighting is counted under, from its destination. -/
def FeatureKind.key : FeatureKind → Text → Text
  | .event, destination =>
    destination.takeWhile (· != '[') ++ ":".toList ++ (destination.dropWhile (· != '[')).tail.dropLast
  | _, destination => destination

/-! ## Names of tags -/

theorem tagName_chars {body name rest : Text} {closing : Bool}
    (h : Markup.tagName body = some (name, closing, rest)) :
    ∀ c ∈ name, isAsciiAlphanumeric c = true ∨ c = '-' ∨ c = ':' := by
  simp only [Markup.tagName] at h
  split at h
  · cases h
  · generalize trimStart (if body.head? = some '/' then body.tail else body) = named at h
    split at h
    · cases h
    · rename_i hname
      simp only [Option.some.injEq, Prod.mk.injEq] at h
      obtain ⟨rfl, -, -⟩ := h
      simp only [Bool.or_eq_true, not_or, Bool.not_eq_true, Bool.not_eq_false'] at hname
      intro c hc
      have := List.all_eq_true.mp hname.2 c hc
      simpa [or_assoc] using this

theorem isBracket {c : Char} (h : isAsciiAlphanumeric c = true ∨ c = '-' ∨ c = ':') : c ≠ '[' := by
  rintro rfl
  revert h; decide

/-- Tag names as the scanner reads them. -/
def GoodName (tag : MarkupTag) : Prop := ∀ c ∈ tag.name, c ≠ '['

theorem parseTagBody_goodName {body : Text} {tag : MarkupTag} (h : parseTagBody body = some tag) :
    GoodName tag := by
  simp only [parseTagBody, Option.map_eq_some_iff, Prod.exists] at h
  obtain ⟨name, closing, rest, hname, rfl⟩ := h
  exact fun c hc => isBracket (tagName_chars hname c hc)

theorem withBody_goodName {K : Crates} {tag : MarkupTag} {body : Text} (h : GoodName tag) :
    GoodName (withBody K tag body) := by
  simp only [withBody]
  split
  · exact h
  · exact h

theorem scanStep_goodName {K : Crates} {htmlMode : Bool} {u : Text} {out : List MarkupTag}
    (h : scanStep K htmlMode u = .halt out ∨ ∃ rest, scanStep K htmlMode u = .next out rest) :
    ∀ tag ∈ out, GoodName tag := by
  have one : ∀ {tag : MarkupTag}, GoodName tag → ∀ t ∈ [tag], GoodName t := by
    intro tag htag t ht
    rwa [List.mem_singleton.mp ht]
  simp only [scanStep] at h
  split at h
  · rcases h with h | ⟨_, h⟩ <;> cases h
    exact fun _ h => absurd h (by simp)
  split at h
  · split at h <;> rcases h with h | ⟨_, h⟩ <;> cases h <;> exact fun _ h => absurd h (by simp)
  split at h
  · rcases h with h | ⟨_, h⟩ <;> cases h
    exact fun _ h => absurd h (by simp)
  split at h
  · rcases h with h | ⟨_, h⟩ <;> cases h
    exact fun _ h => absurd h (by simp)
  rename_i hbody
  have hname := parseTagBody_goodName hbody
  split at h
  · rcases h with h | ⟨_, h⟩ <;> cases h
    exact one hname
  split at h
  · split at h <;> rcases h with h | ⟨_, h⟩ <;> cases h <;> exact one (withBody_goodName hname)
  · rcases h with h | ⟨_, h⟩ <;> cases h
    exact one hname

theorem scanMarkupTags_goodName (K : Crates) (text : Text) (htmlMode : Bool) :
    ∀ tag ∈ scanMarkupTags K text htmlMode, GoodName tag :=
  forall_collect (scanStep_productive K htmlMode) (fun _ _ hs => scanStep_goodName (.inl hs))
    (fun _ _ _ hs => scanStep_goodName (.inr ⟨_, hs⟩)) text

/-! ## Sightings -/

theorem eventSightings_key {K : Crates} {tag : MarkupTag} (hname : GoodName tag) :
    ∀ s ∈ eventSightings K tag, s.1.2 = s.1.1.key s.2.1 := by
  intro s hs
  simp only [eventSightings, List.mem_map, Prod.exists] at hs
  obtain ⟨name, value, -, rfl⟩ := hs
  have hstop : ∀ c ∈ ('[' :: (name ++ [']'])).head?, (c != '[') = false := by
    intro c hc
    obtain rfl : '[' = c := by simpa using hc
    rfl
  obtain ⟨htake, hdrop⟩ := takeWhile_append_stop
    (p := (· != '[')) (fun c hc => by simpa using hname c hc) hstop
  have hdest : tag.name ++ "[".toList ++ name ++ "]".toList = tag.name ++ ('[' :: (name ++ [']'])) := by
    simp
  simp only [FeatureKind.key, hdest, htake, hdrop, List.tail_cons, List.dropLast_concat]

theorem tagSightings_key {K : Crates} {tag : MarkupTag} (hname : GoodName tag) :
    ∀ s ∈ tagSightings K tag, s.1.2 = s.1.1.key s.2.1 := by
  intro s hs
  simp only [tagSightings] at hs
  split at hs
  · cases hs
  rcases List.mem_append.mp hs with hs | hs
  · rcases List.mem_append.mp hs with hs | hs
    · exact eventSightings_key hname s hs
    · simp only [elementSightings] at hs
      split at hs
      · split at hs
        · rw [List.mem_singleton.mp hs]; rfl
        · cases hs
      split at hs
      · rw [List.mem_singleton.mp hs]; rfl
      split at hs
      · rw [List.mem_singleton.mp hs]; rfl
      · cases hs
  · simp only [downloadSightings] at hs
    split at hs
    · rw [List.mem_singleton.mp hs]; rfl
    · cases hs

theorem elementSightings_kind {K : Crates} {tag : MarkupTag} :
    ∀ s ∈ elementSightings K tag, s.1.1 = .form ∧ tag.name = "form".toList ∨
      s.1.1 = .script ∧ tag.name = "script".toList ∨ s.1.1 = .iframe ∧ tag.name = "iframe".toList := by
  intro s hs
  simp only [elementSightings] at hs
  split at hs
  · rename_i hname
    split at hs
    · rw [List.mem_singleton.mp hs]; exact .inl ⟨rfl, hname⟩
    · cases hs
  split at hs
  · rename_i hname
    rw [List.mem_singleton.mp hs]; exact .inr (.inl ⟨rfl, hname⟩)
  split at hs
  · rename_i hname
    rw [List.mem_singleton.mp hs]; exact .inr (.inr ⟨rfl, hname⟩)
  · cases hs

theorem downloadSightings_kind {K : Crates} {tag : MarkupTag} :
    ∀ s ∈ downloadSightings K tag, s.1.1 = .download := by
  intro s hs
  simp only [downloadSightings] at hs
  split at hs
  · rw [List.mem_singleton.mp hs]
  · cases hs

/-- The page at `path`, where the behaviour gate scans it for tags. -/
def pageText (files : Files) (path : Text) : Option Text :=
  if isPage path then files[path]?.bind decode else none

theorem pageText_onePage {page path text : Text} (h : pageText (onePage page) path = some text) :
    path = "index.html".toList ∧ text = page := by
  simp only [pageText] at h
  split at h
  · rw [onePage, Std.ExtTreeMap.getElem?_insert] at h
    split at h
    · rename_i heq
      rw [Option.bind_some, decode_encode] at h
      exact ⟨(Std.LawfulEqCmp.eq_of_compare heq).symm, (Option.some.inj h).symm⟩
    · simp at h
  · cases h

def pageTags (K : Crates) (files : Files) (path : Text) : List MarkupTag :=
  match pageText files path with
  | some text => scanMarkupTags K text (textMediaTypeForPath path = some .html)
  | none => []

def pageSightings (K : Crates) (files : Files) (path : Text) : List Sighting :=
  (pageTags K files path).flatMap (tagSightings K)

theorem pageSightings_key {K : Crates} {files : Files} {path : Text} :
    ∀ s ∈ pageSightings K files path, s.1.2 = s.1.1.key s.2.1 := by
  intro s hs
  obtain ⟨tag, htag, hs⟩ := List.mem_flatMap.mp hs
  refine tagSightings_key ?_ s hs
  simp only [pageTags] at htag
  split at htag
  · exact scanMarkupTags_goodName K _ _ tag htag
  · cases htag

/-- The code of a feature that no counter of the tag loop numbers. -/
def OtherCode (code : Text) : Prop := ∀ kind : FeatureKind, code ≠ kind.code

theorem markerFeatures_code {code path lowerText : Text} {marker : String} :
    ∀ f ∈ markerFeatures code path lowerText marker, f.code = code := by
  intro f hf
  simp only [markerFeatures, List.mem_map] at hf
  obtain ⟨i, -, rfl⟩ := hf
  rfl

theorem originFeatures_code {path label : Text} {origins : List Text} :
    ∀ f ∈ originFeatures path label origins, f.code = "new_external_origin".toList := by
  intro f hf
  simp only [originFeatures, List.mem_map] at hf
  obtain ⟨i, -, rfl⟩ := hf
  rfl

theorem scriptContentFeatures_code {K : Crates} {files : Files} {path : Text} {tag : MarkupTag} :
    ∀ f ∈ scriptContentFeatures K files path tag, f.code = "changed_script_content".toList := by
  intro f hf
  simp only [scriptContentFeatures] at hf
  split at hf
  · cases hf
  split at hf
  · cases hf
  split at hf
  · split at hf
    · rw [List.mem_singleton.mp hf]
    · cases hf
  · cases hf

/-- Of one file, only the tags bear features of the counters. -/
theorem mem_fileFeatures {K : Crates} {files : Files} {path : Text} {bytes : Bytes}
    {feature : BehaviorFeature} {kind : FeatureKind} (hcode : feature.code = kind.code) :
    feature ∈ fileFeatures K files path bytes ↔
      ∃ text, decode bytes = some text ∧ isPage path ∧
        feature ∈ markupFeatures K path text (textMediaTypeForPath path = some .html) := by
  have other : ∀ {code}, feature.code = code → OtherCode code → False :=
    fun h ho => ho kind (h.symm.trans hcode)
  cases hdecode : decode bytes with
  | none => simp [fileFeatures, hdecode]
  | some text =>
  simp only [fileFeatures, hdecode, List.mem_append]
  constructor
  · rintro (((((h | h) | h) | h) | h) | h)
    · split at h
      · have hcontent : feature.code = "changed_script_content".toList := by
          rw [List.mem_singleton.mp h]
        exact (other hcontent fun kind => by cases kind <;> decide).elim
      · cases h
    · exact (other (originFeatures_code _ h) fun kind => by cases kind <;> decide).elim
    · split at h
      · exact (other (originFeatures_code _ h) fun kind => by cases kind <;> decide).elim
      · cases h
    · obtain ⟨marker, -, h⟩ := List.mem_flatMap.mp h
      exact (other (markerFeatures_code _ h) fun kind => by cases kind <;> decide).elim
    · obtain ⟨marker, -, h⟩ := List.mem_flatMap.mp h
      exact (other (markerFeatures_code _ h) fun kind => by cases kind <;> decide).elim
    · split at h
      · rename_i hmedia
        rcases List.mem_append.mp h with h | h
        · exact ⟨text, rfl, hmedia, h⟩
        · obtain ⟨tag, -, h⟩ := List.mem_flatMap.mp h
          exact (other (scriptContentFeatures_code _ h) fun kind => by cases kind <;> decide).elim
      · cases h
  · rintro ⟨text', htext, hmedia, h⟩
    obtain rfl := Option.some.inj htext
    rw [if_pos hmedia]
    exact .inr (List.mem_append_left _ h)

theorem markupFeatures_path {K : Crates} {path text : Text} {htmlMode : Bool} :
    ∀ f ∈ markupFeatures K path text htmlMode, f.path = path := by
  intro f hf
  obtain ⟨_, -, rfl⟩ := List.mem_map.mp hf
  rfl

/-- The features of a counter come from the tags of their own page. -/
theorem mem_behaviorFeatures {K : Crates} {files : Files} {feature : BehaviorFeature}
    {kind : FeatureKind} (hcode : feature.code = kind.code) :
    feature ∈ behaviorFeatures K files ↔
      feature ∈ (Occurrence.number [] (pageSightings K files feature.path)).map
        (numberedFeature feature.path) := by
  simp only [behaviorFeatures, List.mem_flatMap, Prod.exists, mem_fileFeatures hcode,
    Std.ExtTreeMap.mem_toList_iff_getElem?_eq_some]
  constructor
  · rintro ⟨path, bytes, hfile, text, htext, hmedia, h⟩
    obtain rfl := markupFeatures_path _ h
    simp only [pageSightings, pageTags, pageText, if_pos hmedia, hfile, Option.bind_some, htext]
    exact h
  · intro h
    simp only [pageSightings, pageTags] at h
    split at h
    · rename_i text hpage
      simp only [pageText] at hpage
      split at hpage
      · rename_i hmedia
        obtain ⟨bytes, hfile, htext⟩ := Option.bind_eq_some_iff.mp hpage
        exact ⟨_, bytes, hfile, text, htext, hmedia, h⟩
      · cases hpage
    · cases h

/-- Counter by counter and key by key, the sightings of an accepted page are a prefix of those of the
page it replaces. -/
theorem sightings_extend {G : Gate} {raw base : Text} {accepted : Files} {result : AppliedChangeSet}
    (h : parseAndApplyChangeSet G raw base accepted = .ok result) (hnone : result.blockingWarnings = [])
    (path : Text) (key : FeatureKind × Text) :
    Occurrence.select key (pageSightings G.crates result.files path) <+:
      Occurrence.select key (pageSightings G.crates accepted path) := by
  refine Occurrence.select_prefix ?_ key
  rintro ⟨⟨kind, key⟩, n, destination, fingerprint⟩ hx
  have hfeature : numberedFeature path ((kind, key), n, destination, fingerprint) ∈
      behaviorFeatures G.crates result.files :=
    (mem_behaviorFeatures rfl).mpr (List.mem_map_of_mem hx)
  have horigin : kind.code ≠ "new_external_origin".toList := by cases kind <;> decide
  have hbefore := features_of_no_warnings h hnone hfeature horigin
  obtain ⟨⟨⟨kind', key'⟩, n', destination', fingerprint'⟩, hy, heq⟩ :=
    List.mem_map.mp ((mem_behaviorFeatures rfl).mp hbefore)
  simp only [numberedFeature, BehaviorFeature.mk.injEq] at heq
  obtain ⟨hkind, -, rfl, hprint⟩ := heq
  obtain rfl := FeatureKind.code_injective hkind
  obtain ⟨rfl, rfl⟩ := fingerprint_inj hprint
  have hkey := pageSightings_key _ (Occurrence.mem_of_mem_number hx)
  have hkey' := pageSightings_key _ (Occurrence.mem_of_mem_number hy)
  simp only at hkey hkey'
  rw [hkey, ← hkey']
  exact hy

end LpStudio.ChangeSet
