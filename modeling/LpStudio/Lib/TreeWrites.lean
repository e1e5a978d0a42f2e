import LpStudio.Lib.DirTree

/-! # Files in a new tree
Files that are written one after another, each with the directories above it, and the tree that they make up.
-/
namespace DirTree

variable {ν γ : Type}

theorem prefix_dropLast_iff {q path : List ν} (hpath : path ≠ []) : q <+: path.dropLast ↔ q <+: path ∧ q ≠ path := by
  constructor
  · intro h
    refine ⟨h.trans (List.dropLast_prefix path), ?_⟩
    rintro rfl
    have hlength := h.length_le
    rw [List.length_dropLast] at hlength
    have := List.length_pos_iff.mpr hpath
    omega
  · rintro ⟨⟨rest, rfl⟩, hne⟩
    have hrest : rest ≠ [] := fun h => hne (by rw [h, List.append_nil])
    rw [List.dropLast_append_of_ne_nil hrest]
    exact List.prefix_append _ _

variable [Ord ν] [Std.TransOrd ν]

namespace Tree

/-- A directory without entries. -/
def empty : Tree ν γ where
  entries := ∅
  root := Std.ExtTreeMap.not_mem_empty
  parent _ _ h := absurd h Std.ExtTreeMap.not_mem_empty

variable [Std.LawfulEqOrd ν] [DecidableEq ν] [DecidableEq γ]

/-- `mkdir` that accepts a directory. -/
def ensureDir (t : Tree ν γ) (path : List ν) : Option (Tree ν γ) :=
  match t.entries[path]? with
  | some .dir => some t
  | some (.file _) => none
  | none => t.create path .dir

/-- `mkdir -p` of the names, below a directory. -/
def createDirs (t : Tree ν γ) (directory : List ν) : List ν → Option (Tree ν γ)
  | [] => some t
  | name :: rest => (t.ensureDir (directory ++ [name])).bind fun t => t.createDirs (directory ++ [name]) rest

/-- A new file, with the directories above it. -/
def writeNew (t : Tree ν γ) (path : List ν) (content : γ) : Option (Tree ν γ) :=
  (t.createDirs [] path.dropLast).bind fun t => t.create path (.file content)

variable {t t' : Tree ν γ} {directory path : List ν}

theorem create_some {node : Node γ} (h : t.create path node = some t') :
    t.Free path ∧ ∀ q n, t'.entries[q]? = some n ↔ t.entries[q]? = some n ∨ q = path ∧ n = node := by
  unfold create at h
  split at h
  · rename_i hfree
    cases h
    refine ⟨hfree, fun q n => ?_⟩
    have hentry : (t.add path node hfree).entries[q]? = some n ↔
        q = path ∧ n = node ∨ q ≠ path ∧ t.entries[q]? = some n := t.getElem?_insert_iff
    rw [hentry]
    constructor
    · rintro (hnew | ⟨-, hold⟩)
      · exact .inr hnew
      · exact .inl hold
    · rintro (hold | hnew)
      · refine .inr ⟨?_, hold⟩
        rintro rfl
        exact hfree.2.2 (Std.ExtTreeMap.mem_iff_isSome_getElem?.mpr (by rw [hold]; rfl))
      · exact .inl hnew
  · cases h

theorem create_exists {node : Node γ} (h : t.Free path) : ∃ t', t.create path node = some t' :=
  ⟨t.add path node h, dif_pos h⟩

theorem ensureDir_some (h : t.ensureDir path = some t') :
    (∀ content, t.entries[path]? ≠ some (.file content)) ∧
      ∀ q n, t'.entries[q]? = some n ↔ t.entries[q]? = some n ∨ q = path ∧ n = .dir := by
  unfold ensureDir at h
  split at h
  · rename_i hdir
    cases h
    refine ⟨fun content hfile => ?_, fun q n => ⟨.inl, ?_⟩⟩
    · rw [hdir] at hfile
      cases hfile
    · rintro (hold | ⟨rfl, rfl⟩)
      · exact hold
      · exact hdir
  · cases h
  · rename_i hnone
    refine ⟨fun content hfile => ?_, (create_some h).2⟩
    rw [hnone] at hfile
    cases hfile

theorem ensureDir_exists (hne : path ≠ []) (hdir : t.isDir path.dropLast)
    (hfile : ∀ content, t.entries[path]? ≠ some (.file content)) : ∃ t', t.ensureDir path = some t' := by
  unfold ensureDir
  cases hentry : t.entries[path]? with
  | none =>
    refine create_exists ⟨hne, hdir, fun hmem => ?_⟩
    rw [Std.ExtTreeMap.mem_iff_isSome_getElem?, hentry] at hmem
    cases hmem
  | some node =>
    cases node with
    | dir => exact ⟨t, rfl⟩
    | file content => exact absurd hentry (hfile content)

/-- No file stands where the directories are created, and they are all there afterwards. -/
theorem createDirs_some {rest : List ν} (h : t.createDirs directory rest = some t') :
    (∀ init, init ≠ [] → init <+: rest → ∀ content, t.entries[directory ++ init]? ≠ some (.file content)) ∧
      ∀ q n, t'.entries[q]? = some n ↔ t.entries[q]? = some n ∨
        n = .dir ∧ ∃ init, init ≠ [] ∧ init <+: rest ∧ q = directory ++ init := by
  induction rest generalizing t directory with
  | nil =>
    cases h
    refine ⟨fun init hne hinit => absurd (List.prefix_nil.mp hinit) hne, fun q n => ⟨.inl, ?_⟩⟩
    rintro (hold | ⟨-, init, hne, hinit, -⟩)
    · exact hold
    · exact absurd (List.prefix_nil.mp hinit) hne
  | cons name rest ih =>
    obtain ⟨next, hnext, hrest⟩ := Option.bind_eq_some_iff.mp h
    obtain ⟨hfile, hentries⟩ := ensureDir_some hnext
    obtain ⟨hfiles, hfinal⟩ := ih hrest
    have hcons : ∀ init, directory ++ name :: init = directory ++ [name] ++ init := fun init => by simp
    constructor
    · intro init hne hinit content hentry
      obtain ⟨first, init, rfl⟩ := List.exists_cons_of_ne_nil hne
      obtain ⟨rfl, htail⟩ := List.cons_prefix_cons.mp hinit
      cases init with
      | nil => exact hfile content hentry
      | cons second init =>
        rw [hcons] at hentry
        exact hfiles _ (List.cons_ne_nil _ _) htail content ((hentries _ _).mpr (.inl hentry))
    · intro q n
      rw [hfinal, hentries]
      constructor
      · rintro ((hold | ⟨rfl, rfl⟩) | ⟨rfl, init, hne, hinit, rfl⟩)
        · exact .inl hold
        · exact .inr ⟨rfl, [name], List.cons_ne_nil _ _, List.prefix_append [name] rest, rfl⟩
        · exact .inr ⟨rfl, name :: init, List.cons_ne_nil _ _, List.cons_prefix_cons.mpr ⟨rfl, hinit⟩, (hcons init).symm⟩
      · rintro (hold | ⟨rfl, init, hne, hinit, rfl⟩)
        · exact .inl (.inl hold)
        · obtain ⟨first, init, rfl⟩ := List.exists_cons_of_ne_nil hne
          obtain ⟨rfl, htail⟩ := List.cons_prefix_cons.mp hinit
          cases init with
          | nil => exact .inl (.inr ⟨rfl, rfl⟩)
          | cons second init => exact .inr ⟨rfl, second :: init, List.cons_ne_nil _ _, htail, hcons _⟩

theorem createDirs_exists {rest : List ν} (hdir : t.isDir directory)
    (h : ∀ init, init ≠ [] → init <+: rest → ∀ content, t.entries[directory ++ init]? ≠ some (.file content)) :
    ∃ t', t.createDirs directory rest = some t' := by
  induction rest generalizing t directory with
  | nil => exact ⟨t, rfl⟩
  | cons name rest ih =>
    obtain ⟨next, hnext⟩ := ensureDir_exists (by simp) (by rwa [List.dropLast_concat])
      (h [name] (List.cons_ne_nil _ _) (List.prefix_append [name] rest))
    obtain ⟨-, hentries⟩ := ensureDir_some hnext
    obtain ⟨final, hfinal⟩ := @ih next (directory ++ [name]) (.inr ((hentries _ _).mpr (.inr ⟨rfl, rfl⟩))) (by
      intro init hne hinit content hentry
      rcases (hentries _ _).mp hentry with hold | ⟨-, hfile⟩
      · rw [List.append_assoc] at hold
        exact h (name :: init) (List.cons_ne_nil _ _) (List.cons_prefix_cons.mpr ⟨rfl, hinit⟩) content hold
      · cases hfile)
    exact ⟨final, Option.bind_eq_some_iff.mpr ⟨next, hnext, hfinal⟩⟩

/-- The place for a new file: no file stands above it, and nothing where it comes to be. -/
structure Writable (t : Tree ν γ) (path : List ν) : Prop where
  nonempty : path ≠ []
  above : ∀ init, init ≠ [] → init <+: path → init ≠ path → ∀ content, t.entries[init]? ≠ some (.file content)
  new : path ∉ t.entries

theorem writeNew_some {content : γ} (h : t.writeNew path content = some t') :
    t.Writable path ∧ ∀ q n, t'.entries[q]? = some n ↔ t.entries[q]? = some n ∨
      (n = .dir ∧ q ≠ [] ∧ q <+: path ∧ q ≠ path) ∨ q = path ∧ n = .file content := by
  obtain ⟨next, hnext, hfinal⟩ := Option.bind_eq_some_iff.mp h
  obtain ⟨hfree, hentries⟩ := create_some hfinal
  obtain ⟨hfiles, hdirs⟩ := createDirs_some hnext
  have hmem : ∀ q, q ∈ t.entries → q ∈ next.entries := by
    intro q hq
    rw [Std.ExtTreeMap.mem_iff_isSome_getElem?, Option.isSome_iff_exists] at hq ⊢
    obtain ⟨n, hn⟩ := hq
    exact ⟨n, (hdirs q n).mpr (.inl hn)⟩
  refine ⟨⟨hfree.1, fun init hne hinit hproper => ?_, fun hold => hfree.2.2 (hmem path hold)⟩, fun q n => ?_⟩
  · exact hfiles init hne ((prefix_dropLast_iff hfree.1).mpr ⟨hinit, hproper⟩)
  · rw [hentries, hdirs, or_assoc]
    refine or_congr_right (or_congr_left (and_congr_right fun _ => ?_))
    constructor
    · rintro ⟨init, hne, hinit, rfl⟩
      exact ⟨hne, (prefix_dropLast_iff hfree.1).mp hinit⟩
    · rintro ⟨hne, hinit⟩
      exact ⟨q, hne, (prefix_dropLast_iff hfree.1).mpr hinit, rfl⟩

theorem writeNew_exists {content : γ} (h : t.Writable path) : ∃ t', t.writeNew path content = some t' := by
  obtain ⟨next, hnext⟩ := @createDirs_exists _ _ _ _ _ _ _ t [] path.dropLast (.inl rfl) (by
    intro init hne hinit
    obtain ⟨hinit, hproper⟩ := (prefix_dropLast_iff h.nonempty).mp hinit
    exact h.above init hne hinit hproper)
  obtain ⟨-, hdirs⟩ := createDirs_some hnext
  have hfree : next.Free path := by
    refine ⟨h.nonempty, ?_, fun hmem => ?_⟩
    · by_cases hnil : path.dropLast = []
      · exact .inl hnil
      · exact .inr ((hdirs _ _).mpr (.inr ⟨rfl, _, hnil, List.prefix_rfl, rfl⟩))
    · rw [Std.ExtTreeMap.mem_iff_isSome_getElem?, Option.isSome_iff_exists] at hmem
      obtain ⟨n, hn⟩ := hmem
      rcases (hdirs path n).mp hn with hold | ⟨-, init, -, hinit, heq⟩
      · exact h.new (Std.ExtTreeMap.mem_iff_isSome_getElem?.mpr (by rw [hold]; rfl))
      · exact ((prefix_dropLast_iff h.nonempty).mp hinit).2 heq.symm
  obtain ⟨final, hfinal⟩ := @create_exists _ _ _ _ _ _ _ next path (.file content) hfree
  exact ⟨final, Option.bind_eq_some_iff.mpr ⟨next, hnext, hfinal⟩⟩

/-! ## All the files -/

/-- A tree of the files and of the directories above them. -/
def Holds (t : Tree ν γ) (files : List (List ν × γ)) : Prop := ∀ path n, t.entries[path]? = some n ↔
  (∃ content, (path, content) ∈ files ∧ n = .file content) ∨
    n = .dir ∧ path ≠ [] ∧ ∃ file ∈ files, path <+: file.1 ∧ path ≠ file.1

/-- Neither path leads to the other. -/
def Apart (a b : List ν) : Prop := ¬a <+: b ∧ ¬b <+: a

omit [Std.LawfulEqOrd ν] [DecidableEq ν] [DecidableEq γ] in
theorem holds_empty : (empty : Tree ν γ).Holds [] := by
  intro path n
  have hnone : (empty : Tree ν γ).entries[path]? = none := Std.ExtTreeMap.getElem?_empty
  rw [hnone]
  refine iff_of_false nofun ?_
  rintro (⟨content, hmem, -⟩ | ⟨-, -, file, hmem, -⟩)
  · exact List.not_mem_nil hmem
  · exact List.not_mem_nil hmem

variable {files : List (List ν × γ)}

omit [Std.LawfulEqOrd ν] [DecidableEq ν] [DecidableEq γ] in
theorem Holds.nonempty (h : t.Holds files) {file : List ν × γ} (hfile : file ∈ files) : file.1 ≠ [] := by
  intro hnil
  have hentry := (h file.1 (.file file.2)).mpr (.inl ⟨file.2, hfile, rfl⟩)
  rw [hnil] at hentry
  exact t.root (Std.ExtTreeMap.mem_iff_isSome_getElem?.mpr (by rw [hentry]; rfl))

omit [Std.LawfulEqOrd ν] [DecidableEq γ] in
theorem Holds.writable (h : t.Holds files) : t.Writable path ↔ path ≠ [] ∧ ∀ file ∈ files, Apart file.1 path := by
  constructor
  · intro hpath
    refine ⟨hpath.nonempty, fun file hfile => ⟨fun hpre => ?_, fun hpre => ?_⟩⟩
    · have hentry := (h file.1 (.file file.2)).mpr (.inl ⟨file.2, hfile, rfl⟩)
      by_cases heq : file.1 = path
      · rw [heq] at hentry
        exact hpath.new (Std.ExtTreeMap.mem_iff_isSome_getElem?.mpr (by rw [hentry]; rfl))
      · exact hpath.above file.1 (h.nonempty hfile) hpre heq file.2 hentry
    · by_cases heq : path = file.1
      · have hentry := (h file.1 (.file file.2)).mpr (.inl ⟨file.2, hfile, rfl⟩)
        rw [← heq] at hentry
        exact hpath.new (Std.ExtTreeMap.mem_iff_isSome_getElem?.mpr (by rw [hentry]; rfl))
      · have hentry := (h path .dir).mpr (.inr ⟨rfl, hpath.nonempty, file, hfile, hpre, heq⟩)
        exact hpath.new (Std.ExtTreeMap.mem_iff_isSome_getElem?.mpr (by rw [hentry]; rfl))
  · rintro ⟨hne, hapart⟩
    refine ⟨hne, fun init _ hinit _ content hentry => ?_, fun hmem => ?_⟩
    · rcases (h init (.file content)).mp hentry with ⟨found, hfound, -⟩ | ⟨hdir, -⟩
      · exact (hapart _ hfound).1 hinit
      · cases hdir
    · rw [Std.ExtTreeMap.mem_iff_isSome_getElem?, Option.isSome_iff_exists] at hmem
      obtain ⟨n, hn⟩ := hmem
      rcases (h path n).mp hn with ⟨content, hfound, -⟩ | ⟨-, -, file, hfile, hpre, -⟩
      · exact (hapart _ hfound).1 List.prefix_rfl
      · exact (hapart file hfile).2 hpre

theorem Holds.writeNew (h : t.Holds files) {content : γ} (hwrite : t.writeNew path content = some t') :
    t'.Holds (files ++ [(path, content)]) := by
  obtain ⟨-, hentries⟩ := writeNew_some hwrite
  intro q n
  rw [hentries, h q n]
  simp only [List.mem_append, List.mem_singleton, Prod.mk.injEq]
  constructor
  · rintro ((⟨found, hfound, rfl⟩ | ⟨rfl, hne, file, hfile, hproper⟩) | ⟨rfl, hne, hproper⟩ | ⟨rfl, rfl⟩)
    · exact .inl ⟨found, .inl hfound, rfl⟩
    · exact .inr ⟨rfl, hne, file, .inl hfile, hproper⟩
    · exact .inr ⟨rfl, hne, (path, content), .inr rfl, hproper⟩
    · exact .inl ⟨content, .inr ⟨rfl, rfl⟩, rfl⟩
  · rintro (⟨found, hfound | ⟨rfl, rfl⟩, rfl⟩ | ⟨rfl, hne, file, hfile | rfl, hproper⟩)
    · exact .inl (.inl ⟨found, hfound, rfl⟩)
    · exact .inr (.inr ⟨rfl, rfl⟩)
    · exact .inl (.inr ⟨rfl, hne, file, hfile, hproper⟩)
    · exact .inr (.inl ⟨rfl, hne, hproper⟩)

def writeAll (files : List (List ν × γ)) : Option (Tree ν γ) :=
  files.foldlM (fun t file => t.writeNew file.1 file.2) empty

theorem writeAll_append {file : List ν × γ} :
    writeAll (files ++ [file]) = (writeAll files).bind fun t => t.writeNew file.1 file.2 := by
  rw [writeAll, List.foldlM_append, writeAll]
  exact congrArg _ (funext fun t => by simp)

theorem writeAll_holds (h : writeAll files = some t) : t.Holds files := by
  induction files using List.reverseRecOn generalizing t with
  | nil =>
    cases h
    exact holds_empty
  | append_singleton files file ih =>
    rw [writeAll_append] at h
    obtain ⟨before, hbefore, hwrite⟩ := Option.bind_eq_some_iff.mp h
    exact (ih hbefore).writeNew hwrite

/-- Files can be written one after another if and only if no path leads to another. -/
theorem writeAll_iff : (∃ t : Tree ν γ, writeAll files = some t) ↔
    (∀ file ∈ files, file.1 ≠ []) ∧ files.Pairwise fun a b => Apart a.1 b.1 := by
  induction files using List.reverseRecOn with
  | nil => exact iff_of_true ⟨empty, rfl⟩ ⟨fun _ h => absurd h List.not_mem_nil, .nil⟩
  | append_singleton files file ih =>
    simp only [writeAll_append, List.forall_mem_append, List.forall_mem_singleton, List.pairwise_append,
      List.pairwise_singleton, true_and]
    constructor
    · rintro ⟨t, h⟩
      obtain ⟨before, hbefore, hwrite⟩ := Option.bind_eq_some_iff.mp h
      obtain ⟨hne, hapart⟩ := ih.mp ⟨before, hbefore⟩
      obtain ⟨hfile, hnew⟩ := (writeAll_holds hbefore).writable.mp (writeNew_some hwrite).1
      exact ⟨⟨hne, hfile⟩, hapart, hnew⟩
    · rintro ⟨⟨hne, hfile⟩, hapart, hnew⟩
      obtain ⟨before, hbefore⟩ := ih.mpr ⟨hne, hapart⟩
      obtain ⟨t, hwrite⟩ := @writeNew_exists _ _ _ _ _ _ _ before file.1 file.2
        ((writeAll_holds hbefore).writable.mpr ⟨hfile, hnew⟩)
      exact ⟨t, Option.bind_eq_some_iff.mpr ⟨before, hbefore, hwrite⟩⟩

/-! ## The number of entries -/

/-- The directories above the files. -/
def above (files : List (List ν × γ)) : List (List ν) :=
  (files.flatMap fun file => file.1.dropLast.inits.filter (· ≠ [])).dedup

omit [Ord ν] [Std.TransOrd ν] [Std.LawfulEqOrd ν] [DecidableEq γ] in
theorem mem_above : path ∈ above files ↔ path ≠ [] ∧ ∃ file ∈ files, path <+: file.1 ∧ path ≠ file.1 := by
  rw [above, List.mem_dedup, List.mem_flatMap]
  simp only [List.mem_filter, List.mem_inits, decide_eq_true_eq]
  constructor
  · rintro ⟨file, hfile, hpre, hne⟩
    have hnonempty : file.1 ≠ [] := by
      intro hnil
      rw [hnil] at hpre
      exact hne (List.prefix_nil.mp hpre)
    exact ⟨hne, file, hfile, (prefix_dropLast_iff hnonempty).mp hpre⟩
  · rintro ⟨hne, file, hfile, hpre, hproper⟩
    have hnonempty : file.1 ≠ [] := by
      intro hnil
      rw [hnil] at hpre
      exact hne (List.prefix_nil.mp hpre)
    exact ⟨file, hfile, (prefix_dropLast_iff hnonempty).mpr ⟨hpre, hproper⟩, hne⟩

omit [DecidableEq γ] in
theorem Holds.keys_perm (h : t.Holds files) (hkeys : (files.map Prod.fst).Nodup) :
    t.entries.keys.Perm (files.map Prod.fst ++ above files) := by
  have hnodup : (files.map Prod.fst ++ above files).Nodup := by
    refine List.nodup_append.mpr ⟨hkeys, List.nodup_dedup _, ?_⟩
    rintro path hpath other hother rfl
    obtain ⟨file, hfile, rfl⟩ := List.mem_map.mp hpath
    have hentry := (h file.1 (.file file.2)).mpr (.inl ⟨file.2, hfile, rfl⟩)
    have hdir := (h file.1 .dir).mpr (.inr ⟨rfl, mem_above.mp hother⟩)
    rw [hentry] at hdir
    cases hdir
  refine (List.perm_ext_iff_of_nodup Std.ExtTreeMap.nodup_keys hnodup).mpr fun path => ?_
  rw [Std.ExtTreeMap.mem_keys, Std.ExtTreeMap.mem_iff_isSome_getElem?, Option.isSome_iff_exists, List.mem_append,
    mem_above, List.mem_map]
  constructor
  · rintro ⟨n, hn⟩
    rcases (h path n).mp hn with ⟨content, hfile, -⟩ | ⟨-, hdir⟩
    · exact .inl ⟨_, hfile, rfl⟩
    · exact .inr hdir
  · rintro (⟨file, hfile, rfl⟩ | hdir)
    · exact ⟨_, (h file.1 (.file file.2)).mpr (.inl ⟨file.2, hfile, rfl⟩)⟩
    · exact ⟨_, (h path .dir).mpr (.inr ⟨rfl, hdir⟩)⟩

end Tree
end DirTree
