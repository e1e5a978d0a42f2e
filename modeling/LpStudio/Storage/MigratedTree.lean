import LpStudio.Storage.BackupOrder

/-! # The migrated tree
The copy of a project that `create_migrated_staging` extends by the directories and the marker of the new layout.
-/
namespace LpStudio.Storage.Backup
open Str Paths Outcome DirTree

/-! ## Sorted lists -/

section
variable {α : Type} {cmp : α → α → Ordering} [Std.TransCmp cmp]

/-- A sorted list without repetitions is what sorting makes of any list with its members. -/
theorem insertionSort_eq [Std.LawfulEqCmp cmp] [DecidableRel fun a b => (cmp a b).isLE = true] {sorted l : List α}
    (hsorted : sorted.Pairwise fun a b => cmp a b = .lt) (hl : l.Nodup) (h : ∀ a, a ∈ sorted ↔ a ∈ l) :
    l.insertionSort (fun a b => (cmp a b).isLE = true) = sorted := by
  have hnodup : sorted.Nodup := by
    refine hsorted.imp fun {a b} hlt heq => ?_
    have hself : cmp b b = .eq := Std.ReflCmp.compare_self
    rw [heq, hself] at hlt
    cases hlt
  have : IsTrans α fun a b => (cmp a b).isLE = true := ⟨fun _ _ _ => Std.TransCmp.isLE_trans⟩
  have : Std.Total fun a b => (cmp a b).isLE = true := ⟨fun a b => by
    cases hab : cmp a b with
    | lt => exact .inl rfl
    | eq => exact .inl rfl
    | gt =>
      rw [Std.OrientedCmp.lt_of_gt hab]
      exact .inr rfl⟩
  refine List.Perm.eq_of_pairwise (fun a b _ _ hab hba => ?_) (List.pairwise_insertionSort _ l)
    (hsorted.imp fun {a b} hlt => by rw [hlt]; rfl)
    ((List.perm_insertionSort _ l).trans ((List.perm_ext_iff_of_nodup hl hnodup).mpr fun a => (h a).symm))
  exact Std.LawfulEqCmp.eq_of_compare (Std.OrientedCmp.isLE_antisymm hab hba)

end

instance : Std.TransCmp BackupFile.cmp := inferInstanceAs (Std.TransCmp (compareLex _ _))

instance : Std.LawfulEqCmp BackupFile.cmp where
  eq_of_compare {a b} h := by
    rw [BackupFile.cmp, compareLex, compareLex, Ordering.then_eq_eq, Ordering.then_eq_eq] at h
    obtain ⟨⟨hpath, hlength⟩, hdigest⟩ := h
    have hpath : a.path = b.path := Std.LawfulEqOrd.eq_of_compare hpath
    have hlength : a.byteLength = b.byteLength := Std.LawfulEqOrd.eq_of_compare hlength
    have hdigest : a.sha256 = b.sha256 := Std.LawfulEqOrd.eq_of_compare hdigest
    cases a
    cases b
    cases hpath
    cases hlength
    cases hdigest
    rfl

/-! ## The new entries -/

/-- A legacy project: its inventory is stable, in the layout without a marker. -/
def LegacyProject (tree : ProjectTree) : Prop := validateStableProjectInventory tree false = .ok ()

instance (tree : ProjectTree) : Decidable (LegacyProject tree) := inferInstanceAs (Decidable (_ = _))

/-- The names of the new layout, in normal form. -/
def LayoutNormal (K : Crates) : Prop := ∀ name ∈ projectLayoutMarker :: layoutDirectories, K.nfc name = name

theorem LegacyProject.top {tree : ProjectTree} (h : LegacyProject tree) {name : Text} {node : Node Bytes}
    (hentry : tree.entries[[name]]? = some node) :
    node = .dir ∧ name ∈ coreDirectories ++ layoutDirectories ∨ node ≠ .dir ∧ name ∈ projectFiles := by
  obtain ⟨-, hnames, -⟩ := ensure_ok.mp h
  have hchild : name ∈ tree.children [] :=
    (tree.mem_children).mpr (Std.ExtTreeMap.mem_iff_isSome_getElem?.mpr (by rw [List.nil_append, hentry]; rfl))
  have hname := hnames name hchild
  rw [hentry] at hname
  split at hname
  · rename_i hdir
    exact .inl ⟨Option.some.inj hdir, hname⟩
  · rename_i hdir
    exact .inr ⟨fun heq => hdir (congrArg some heq), hname⟩

theorem LegacyProject.no_marker {tree : ProjectTree} (h : LegacyProject tree) :
    tree.entries[[projectLayoutMarker]]? = none := by
  obtain ⟨-, -, hfiles, -⟩ := ensure_ok.mp h
  have hmarker := hfiles projectLayoutMarker (by decide)
  cases hentry : tree.entries[[projectLayoutMarker]]? with
  | none => rfl
  | some node =>
    rcases h.top hentry with ⟨-, hmem⟩ | ⟨hdir, -⟩
    · exact absurd hmem (by decide)
    · rw [hentry] at hmarker
      have : (some node != some Node.dir) = true := bne_iff_ne.mpr fun heq => hdir (Option.some.inj heq)
      rw [this] at hmarker
      cases hmarker

theorem LegacyProject.layout {tree : ProjectTree} (h : LegacyProject tree) {name : Text} (hname : name ∈ layoutDirectories) :
    tree.entries[[name]]? = none ∨ tree.entries[[name]]? = some .dir := by
  cases hentry : tree.entries[[name]]? with
  | none => exact .inl rfl
  | some node =>
    rcases h.top hentry with ⟨rfl, -⟩ | ⟨-, hfile⟩
    · exact .inr rfl
    · exact absurd hfile ((by decide : ∀ name ∈ layoutDirectories, name ∉ projectFiles) name hname)

theorem createEntry_ok {tree : ProjectTree} {name : Text} (node : Node Bytes) (h : tree.entries[[name]]? = none) :
    ∃ next, createEntry tree [name] node = .ok next ∧
      ∀ path n, next.entries[path]? = some n ↔ tree.entries[path]? = some n ∨ path = [name] ∧ n = node := by
  have hfree : tree.Free [name] := by
    refine ⟨List.cons_ne_nil _ _, .inl rfl, fun hmem => ?_⟩
    rw [Std.ExtTreeMap.mem_iff_isSome_getElem?, h] at hmem
    cases hmem
  refine ⟨tree.add [name] node hfree, by rw [createEntry, Tree.create, dif_pos hfree], fun path n => ?_⟩
  change (tree.entries.insert [name] node)[path]? = some n ↔ _
  rw [tree.getElem?_insert_iff]
  constructor
  · rintro (h | ⟨-, h⟩)
    · exact .inr h
    · exact .inl h
  · rintro (hentry | h)
    · refine .inr ⟨?_, hentry⟩
      rintro rfl
      rw [h] at hentry
      cases hentry
    · exact .inl h

theorem ensureDirectories_ok {names : List Text} (tree : ProjectTree)
    (h : ∀ name ∈ names, tree.entries[[name]]? = none ∨ tree.entries[[name]]? = some .dir) :
    ∃ final, names.foldlM ensureDirectory tree = .ok final ∧
      ∀ path n, final.entries[path]? = some n ↔
        tree.entries[path]? = some n ∨ n = .dir ∧ ∃ name ∈ names, path = [name] := by
  induction names generalizing tree with
  | nil => exact ⟨tree, rfl, fun path n => by simp⟩
  | cons name names ih =>
    obtain ⟨next, hnext, hentries⟩ : ∃ next, ensureDirectory tree name = .ok next ∧
        ∀ path n, next.entries[path]? = some n ↔ tree.entries[path]? = some n ∨ path = [name] ∧ n = .dir := by
      rcases h name List.mem_cons_self with hnone | hdir
      · obtain ⟨next, hnext, hentries⟩ := createEntry_ok .dir hnone
        exact ⟨next, by rw [ensureDirectory, hnone]; exact hnext, hentries⟩
      · refine ⟨tree, by rw [ensureDirectory, hdir], fun path n => ?_⟩
        constructor
        · exact .inl
        · rintro (hentry | ⟨rfl, rfl⟩)
          · exact hentry
          · exact hdir
    obtain ⟨final, hfinal, hfinals⟩ := ih next fun other hother => by
      rcases h other (List.mem_cons_of_mem _ hother) with hnone | hdir
      · cases hentry : next.entries[[other]]? with
        | none => exact .inl rfl
        | some node =>
          rcases (hentries _ _).mp hentry with hold | ⟨-, rfl⟩
          · rw [hnone] at hold
            cases hold
          · exact .inr rfl
      · exact .inr ((hentries _ _).mpr (.inl hdir))
    refine ⟨final, by rw [List.foldlM_cons, bind_ok]; exact ⟨next, hnext, hfinal⟩, fun path n => ?_⟩
    rw [hfinals, hentries]
    constructor
    · rintro ((hentry | ⟨rfl, rfl⟩) | ⟨rfl, other, hother, rfl⟩)
      · exact .inl hentry
      · exact .inr ⟨rfl, name, List.mem_cons_self, rfl⟩
      · exact .inr ⟨rfl, other, List.mem_cons_of_mem _ hother, rfl⟩
    · rintro (hentry | ⟨rfl, other, hother, rfl⟩)
      · exact .inl (.inl hentry)
      · rcases List.mem_cons.mp hother with rfl | hother
        · exact .inl (.inr ⟨rfl, rfl⟩)
        · exact .inr ⟨rfl, other, hother, rfl⟩

/-- A project and the new layout. -/
structure Migrated (source staging : ProjectTree) : Prop where
  entries : ∀ path n, staging.entries[path]? = some n ↔ source.entries[path]? = some n ∨
    (n = .dir ∧ ∃ name ∈ layoutDirectories, path = [name]) ∨ path = [projectLayoutMarker] ∧ n = .file layoutMarker

theorem extend_ok {source : ProjectTree} (h : LegacyProject source) :
    ∃ staging, (layoutDirectories.foldlM ensureDirectory source >>= writeMarker) = .ok staging ∧
      Migrated source staging := by
  obtain ⟨extended, hextended, hentries⟩ := ensureDirectories_ok source fun name hname => h.layout hname
  have hnone : extended.entries[[projectLayoutMarker]]? = none := by
    rw [Option.eq_none_iff_forall_ne_some]
    intro node hentry
    rcases (hentries _ _).mp hentry with hold | ⟨-, name, hname, heq⟩
    · rw [h.no_marker] at hold
      cases hold
    · cases heq
      exact absurd hname (by decide)
  obtain ⟨staging, hstaging, hfinal⟩ := createEntry_ok (.file layoutMarker) hnone
  refine ⟨staging, bind_ok.mpr ⟨extended, hextended, by rw [writeMarker, hnone]; exact hstaging⟩, ⟨fun path n => ?_⟩⟩
  rw [hfinal, hentries, or_assoc]

namespace Migrated
variable {source staging : ProjectTree}

theorem mem_dirs (h : Migrated source staging) {path : List Text} :
    path ∈ dirs staging ↔ path ∈ dirs source ∨ ∃ name ∈ layoutDirectories, path = [name] := by
  rw [Backup.mem_dirs, Backup.mem_dirs, h.entries]
  constructor
  · rintro (hold | ⟨-, hnew⟩ | ⟨-, hfile⟩)
    · exact .inl hold
    · exact .inr hnew
    · cases hfile
  · rintro (hold | hnew)
    · exact .inl hold
    · exact .inr (.inl ⟨rfl, hnew⟩)

theorem mem_files (h : Migrated source staging) {path : List Text} {bytes : Bytes} :
    (path, bytes) ∈ files staging ↔
      (path, bytes) ∈ files source ∨ path = [projectLayoutMarker] ∧ bytes = layoutMarker := by
  rw [Backup.mem_files, Backup.mem_files, h.entries]
  constructor
  · rintro (hold | ⟨hdir, -⟩ | ⟨hpath, hfile⟩)
    · exact .inl hold
    · cases hdir
    · cases hfile
      exact .inr ⟨hpath, rfl⟩
  · rintro (hold | ⟨hpath, rfl⟩)
    · exact .inl hold
    · exact .inr (.inr ⟨hpath, rfl⟩)

/-- No directory of a project has a name that goes on as a name of the new layout. -/
theorem not_crossing_new (hlegacy : LegacyProject source) {p : List Text} {name : Text}
    (hname : name ∈ projectLayoutMarker :: layoutDirectories) (hp : p ∈ source.entries) :
    ¬PathOrder.Crossing '/' p [name] := by
  rintro ⟨r, d, c, s, x, xs, ys, rfl, heq, -⟩
  have hlength := congrArg List.length heq
  simp only [List.length_append, List.length_cons, List.length_nil] at hlength
  have hr : r = [] := List.length_eq_zero_iff.mp (by omega)
  subst hr
  obtain ⟨rfl, -⟩ := List.cons.inj heq
  have hmem : [d] ++ x :: xs ∈ source.entries := hp
  have htop := source.prefix_mem (List.cons_ne_nil _ _) hmem
  have hdir : source.entries[[d]]? = some .dir := by
    have hchild : [d] ++ [x] ++ xs ∈ source.entries := hmem
    exact (source.parent [d] x (source.prefix_mem (by simp) hchild)).resolve_left (List.cons_ne_nil _ _)
  rcases hlegacy.top hdir with ⟨-, hd⟩ | ⟨hne, -⟩
  · have hprefix : d.isPrefixOf (d ++ c :: s) = true := List.isPrefixOf_iff_prefix.mpr (List.prefix_append _ _)
    have hself : d ≠ d ++ c :: s := fun h => by simpa using congrArg List.length h
    exact hself ((by decide : ∀ d ∈ coreDirectories ++ layoutDirectories,
      ∀ name ∈ projectLayoutMarker :: layoutDirectories, d.isPrefixOf name = true → d = name) d hd _ hname hprefix)
  · exact hne rfl

theorem not_crossing_singleton {name : Text} {q : List Text} : ¬PathOrder.Crossing '/' [name] q := by
  rintro ⟨r, d, c, s, x, xs, ys, heq, -, -⟩
  have hlength := congrArg List.length heq
  simp only [List.length_append, List.length_cons, List.length_nil] at hlength
  omega

theorem namesInOrder (h : Migrated source staging) (hlegacy : LegacyProject source) (hnames : NamesInOrder source) :
    NamesInOrder staging := by
  have hentry : ∀ {path node}, source.entries[path]? = some node → path ∈ source.entries := fun hentry =>
    Std.ExtTreeMap.mem_iff_isSome_getElem?.mpr (by rw [hentry]; rfl)
  constructor
  · intro p hp q hq
    rcases h.mem_dirs.mp hp with hp | ⟨name, -, rfl⟩
    · rcases h.mem_dirs.mp hq with hq | ⟨name, hname, rfl⟩
      · exact hnames.directories p hp q hq
      · exact not_crossing_new hlegacy (List.mem_cons_of_mem _ hname) (hentry (Backup.mem_dirs.mp hp))
    · exact not_crossing_singleton
  · intro p hp q hq
    obtain ⟨⟨p, bytes⟩, hpfile, rfl⟩ := List.mem_map.mp hp
    obtain ⟨⟨q, bytes'⟩, hqfile, rfl⟩ := List.mem_map.mp hq
    rcases h.mem_files.mp hpfile with hp | ⟨rfl, -⟩
    · rcases h.mem_files.mp hqfile with hq | ⟨rfl, -⟩
      · exact hnames.files _ (List.mem_map_of_mem hp) _ (List.mem_map_of_mem hq)
      · exact not_crossing_new hlegacy List.mem_cons_self (hentry (Backup.mem_files.mp hp))
    · exact not_crossing_singleton

end Migrated

/-! ## The budget -/

/-- The directories of the new layout that a project does not have yet. -/
def missing (tree : ProjectTree) : List Text := layoutDirectories.filter fun name => (tree.entries[[name]]?).isNone

theorem Migrated.keys_length {source staging : ProjectTree} (h : Migrated source staging)
    (hlegacy : LegacyProject source) :
    staging.entries.keys.length = source.entries.keys.length + (missing source).length + 1 := by
  have hnone : ∀ path, path ∈ source.entries.keys ↔ ∃ node, source.entries[path]? = some node := fun path => by
    rw [Std.ExtTreeMap.mem_keys, Std.ExtTreeMap.mem_iff_isSome_getElem?, Option.isSome_iff_exists]
  have hmissing : ∀ {path}, path ∈ (missing source).map (fun name => [name]) ↔
      (∃ name ∈ layoutDirectories, path = [name]) ∧ source.entries[path]? = none := by
    intro path
    rw [List.mem_map]
    constructor
    · rintro ⟨name, hname, rfl⟩
      obtain ⟨hlayout, habsent⟩ := List.mem_filter.mp hname
      exact ⟨⟨name, hlayout, rfl⟩, Option.isNone_iff_eq_none.mp habsent⟩
    · rintro ⟨⟨name, hlayout, rfl⟩, habsent⟩
      exact ⟨name, List.mem_filter.mpr ⟨hlayout, Option.isNone_iff_eq_none.mpr habsent⟩, rfl⟩
  have hnodup : (source.entries.keys ++ ((missing source).map fun name => [name]) ++ [[projectLayoutMarker]]).Nodup := by
    refine List.nodup_append.mpr ⟨List.nodup_append.mpr ⟨Std.ExtTreeMap.nodup_keys,
      List.Nodup.map (fun a b hab => by cases hab; rfl) (List.Nodup.filter _ (by decide)), ?_⟩,
      List.nodup_singleton _, ?_⟩
    · rintro path hold other hother rfl
      obtain ⟨node, hnode⟩ := (hnone path).mp hold
      rw [(hmissing.mp hother).2] at hnode
      cases hnode
    · rintro path hmem other hother rfl
      rw [List.mem_singleton.mp hother] at hmem
      rcases List.mem_append.mp hmem with hold | hlayout
      · obtain ⟨node, hnode⟩ := (hnone _).mp hold
        rw [hlegacy.no_marker] at hnode
        cases hnode
      · obtain ⟨⟨name, hname, heq⟩, -⟩ := hmissing.mp hlayout
        cases heq
        exact absurd hname (by decide)
  have hperm : staging.entries.keys.Perm
      (source.entries.keys ++ ((missing source).map fun name => [name]) ++ [[projectLayoutMarker]]) := by
    refine (List.perm_ext_iff_of_nodup Std.ExtTreeMap.nodup_keys hnodup).mpr fun path => ?_
    rw [Std.ExtTreeMap.mem_keys, Std.ExtTreeMap.mem_iff_isSome_getElem?, Option.isSome_iff_exists, List.mem_append,
      List.mem_append, List.mem_singleton, hnone, hmissing]
    constructor
    · rintro ⟨node, hnode⟩
      rcases (h.entries _ _).mp hnode with hold | ⟨-, hlayout⟩ | ⟨hmarker, -⟩
      · exact .inl (.inl ⟨node, hold⟩)
      · cases hentry : source.entries[path]? with
        | none => exact .inl (.inr ⟨hlayout, rfl⟩)
        | some old => exact .inl (.inl ⟨old, rfl⟩)
      · exact .inr hmarker
    · rintro ((⟨node, hold⟩ | ⟨hlayout, -⟩) | hmarker)
      · exact ⟨node, (h.entries _ _).mpr (.inl hold)⟩
      · exact ⟨.dir, (h.entries _ _).mpr (.inr (.inl ⟨rfl, hlayout⟩))⟩
      · exact ⟨.file layoutMarker, (h.entries _ _).mpr (.inr (.inr ⟨hmarker, rfl⟩))⟩
  rw [hperm.length_eq, List.length_append, List.length_append, List.length_map]
  rfl

theorem files_nodup (tree : ProjectTree) : (files tree).Nodup := List.Nodup.of_map _ (nodup_of_sorted (files_sorted tree))

theorem Migrated.files_perm {source staging : ProjectTree} (h : Migrated source staging)
    (hlegacy : LegacyProject source) :
    (files staging).Perm (files source ++ [([projectLayoutMarker], layoutMarker)]) := by
  have hnew : ([projectLayoutMarker], layoutMarker) ∉ files source := by
    intro hmem
    have hentry := Backup.mem_files.mp hmem
    rw [hlegacy.no_marker] at hentry
    cases hentry
  refine (List.perm_ext_iff_of_nodup (files_nodup staging) ?_).mpr fun file => ?_
  · refine List.nodup_append.mpr ⟨files_nodup source, List.nodup_singleton _, ?_⟩
    rintro file hmem other hother rfl
    rw [List.mem_singleton.mp hother] at hmem
    exact hnew hmem
  · obtain ⟨path, bytes⟩ := file
    rw [h.mem_files, List.mem_append, List.mem_singleton, Prod.mk.injEq]

theorem Migrated.bytes {source staging : ProjectTree} (h : Migrated source staging) (hlegacy : LegacyProject source) :
    bytesIn (files staging) = bytesIn (files source) + layoutMarker.length := by
  rw [bytesIn, ((h.files_perm hlegacy).map _).sum_eq, ← bytesIn, bytesIn_append]
  rfl

theorem newPath_valid {K : Crates} (hnormal : LayoutNormal K) {name : Text}
    (hname : name ∈ projectLayoutMarker :: layoutDirectories) : ValidPath K [name] := by
  have hplain : ∀ name ∈ projectLayoutMarker :: layoutDirectories, (name.isEmpty || name ∈ [".".toList, "..".toList] ||
      name.any (· ∈ ['\x00', '/', '\\'])) = false ∧ name.any isControl = false ∧
      byteLength name ≤ 4 * maxPathBytes := by decide
  obtain ⟨hchars, hcontrol, hbytes⟩ := hplain name hname
  have hdepth : 1 ≤ maxBackupTreeDepth := by decide
  refine ⟨?_, List.cons_ne_nil _ _, hdepth, ?_⟩
  · rw [List.all_cons, List.all_nil, Bool.and_true, backupPart, hchars, hcontrol, hnormal name hname, bne_self_eq_false]
    rfl
  · rw [joinPath, PathOrder.join_singleton]
    exact hbytes

theorem Migrated.collectable_iff {K : Crates} {source staging : ProjectTree} (h : Migrated source staging)
    (hlegacy : LegacyProject source) (hnormal : LayoutNormal K) (hcollect : Collectable K source) :
    Collectable K staging ↔ source.entries.keys.length + (missing source).length + 1 ≤ maxBackupTreeEntries ∧
      bytesIn (files source) + layoutMarker.length ≤ maxBackupTotalBytes := by
  rw [← h.keys_length hlegacy, ← h.bytes hlegacy]
  constructor
  · exact fun hstaging => ⟨hstaging.count, hstaging.total⟩
  · rintro ⟨hcount, htotal⟩
    refine ⟨fun path hpath => ?_, hcount, fun file hfile => ?_, htotal⟩
    · rw [Std.ExtTreeMap.mem_keys, Std.ExtTreeMap.mem_iff_isSome_getElem?, Option.isSome_iff_exists] at hpath
      obtain ⟨node, hnode⟩ := hpath
      rcases (h.entries _ _).mp hnode with hold | ⟨-, name, hname, rfl⟩ | ⟨rfl, -⟩
      · exact hcollect.paths path (Std.ExtTreeMap.mem_keys.mpr
          (Std.ExtTreeMap.mem_iff_isSome_getElem?.mpr (by rw [hold]; rfl)))
      · exact newPath_valid hnormal (List.mem_cons_of_mem _ hname)
      · exact newPath_valid hnormal List.mem_cons_self
    · obtain ⟨path, bytes⟩ := file
      rcases h.mem_files.mp hfile with hold | ⟨-, rfl⟩
      · exact hcollect.each _ hold
      · exact (by decide : layoutMarker.length ≤ maxBackupFileBytes)

/-! ## The verification -/

theorem Migrated.inventory {source staging : ProjectTree} (h : Migrated source staging) (hlegacy : LegacyProject source) :
    validateStableProjectInventory staging true = .ok () := by
  obtain ⟨-, -, hfiles, hcore, -⟩ := ensure_ok.mp hlegacy
  have htop : ∀ {name node}, staging.entries[[name]]? = some node →
      node = .dir ∧ name ∈ coreDirectories ++ layoutDirectories ∨ node ≠ .dir ∧ name ∈ projectFiles := by
    intro name node hnode
    rcases (h.entries _ _).mp hnode with hold | ⟨rfl, other, hother, heq⟩ | ⟨heq, rfl⟩
    · exact hlegacy.top hold
    · cases heq
      exact .inl ⟨rfl, List.mem_append_right _ hother⟩
    · cases heq
      exact .inr ⟨nofun, by decide⟩
  have hchild : ∀ name ∈ staging.children [], ∃ node, staging.entries[[name]]? = some node := by
    intro name hname
    have hmem := (staging.mem_children).mp hname
    rwa [List.nil_append, Std.ExtTreeMap.mem_iff_isSome_getElem?, Option.isSome_iff_exists] at hmem
  refine ensure_ok.mpr ⟨?_, fun name hname => ?_, fun name hname => ?_, fun name hname => ?_, fun _ name hname => ?_⟩
  · have hsubset : staging.children [] ⊆ projectFiles ++ (coreDirectories ++ layoutDirectories) := by
      intro name hname
      obtain ⟨node, hnode⟩ := hchild name hname
      rcases htop hnode with ⟨-, hdir⟩ | ⟨-, hfile⟩
      · exact List.mem_append_right _ hdir
      · exact List.mem_append_left _ hfile
    have hnodup : (staging.children []).Nodup := by
      refine (staging.children_sorted []).imp fun {a b} hlt heq => ?_
      have hself : compare b b = .eq := Std.ReflCmp.compare_self
      rw [heq, hself] at hlt
      cases hlt
    exact (List.subperm_of_subset hnodup hsubset).length_le.trans (by decide)
  · obtain ⟨node, hnode⟩ := hchild name hname
    rcases htop hnode with ⟨rfl, hdir⟩ | ⟨hne, hfile⟩
    · rw [if_pos hnode]
      exact hdir
    · rw [if_neg (by rw [hnode]; exact fun heq => hne (Option.some.inj heq))]
      exact hfile
  · rw [Bool.true_or]
    by_cases hmarker : name = projectLayoutMarker
    · have hentry : staging.entries[[name]]? = some (.file layoutMarker) :=
        (h.entries _ _).mpr (.inr (.inr ⟨by rw [hmarker], rfl⟩))
      rw [hentry]
      rfl
    · have hold := hfiles name hname
      rw [Bool.false_or, bne_iff_ne.mpr hmarker, Bool.and_eq_true, Option.isSome_iff_exists] at hold
      obtain ⟨⟨node, hnode⟩, hfile⟩ := hold
      have hentry : staging.entries[[name]]? = some node := (h.entries _ _).mpr (.inl hnode)
      rw [hnode] at hfile
      rw [hentry, hfile]
      rfl
  · exact (h.entries _ _).mpr (.inl (hcore name hname))
  · exact (h.entries _ _).mpr (.inr (.inl ⟨rfl, name, hname, rfl⟩))

/-- The lists of the migrated tree are those that its verification expects. -/
theorem Migrated.expected {K : Crates} {source staging : ProjectTree} (h : Migrated source staging)
    (hlegacy : LegacyProject source) (hcollect : Collectable K staging) (hnames : NamesInOrder staging) :
    (((dirs source).map joinPath ++ layoutDirectories).dedup.insertionSort fun a b => (compare a b).isLE = true) =
        (dirs staging).map joinPath ∧
    ((((files source).map fun file => backupFile K file.1 file.2) ++
        [backupFile K [projectLayoutMarker] layoutMarker]).insertionSort fun a b => (BackupFile.cmp a b).isLE = true) =
      (files staging).map fun file => backupFile K file.1 file.2 := by
  have hpaths : ∀ path ∈ (files staging).map Prod.fst, ValidPath K path := by
    intro path hpath
    obtain ⟨file, hfile, rfl⟩ := List.mem_map.mp hpath
    exact hcollect.file hfile
  have hdirsIncrease : ((dirs staging).map joinPath).Pairwise fun a b => compare a b = .lt :=
    increasing_iff.mp ((increasing_join_iff (fun path => hcollect.dir) (dirs_sorted staging)).mpr hnames.directories)
  have hfilesIncrease : (((files staging).map Prod.fst).map joinPath).Pairwise fun a b => compare a b = .lt :=
    increasing_iff.mp ((increasing_join_iff hpaths (files_sorted staging)).mpr hnames.files)
  have hsorted : ((files staging).map fun file => backupFile K file.1 file.2).Pairwise fun a b =>
      BackupFile.cmp a b = .lt := by
    rw [List.map_map, List.pairwise_map] at hfilesIncrease
    rw [List.pairwise_map]
    refine hfilesIncrease.imp fun {a b} hlt => ?_
    have hpath : compare (backupFile K a.1 a.2).path (backupFile K b.1 b.2).path = .lt := hlt
    rw [BackupFile.cmp, compareLex, compareLex, compareOn, hpath]
    rfl
  have hperm := (h.files_perm hlegacy).map fun file => backupFile K file.1 file.2
  rw [List.map_append, List.map_singleton] at hperm
  constructor
  · refine insertionSort_eq hdirsIncrease (List.nodup_dedup _) fun directory => ?_
    rw [List.mem_dedup, List.mem_append, List.mem_map, List.mem_map]
    constructor
    · rintro ⟨path, hpath, rfl⟩
      rcases h.mem_dirs.mp hpath with hold | ⟨name, hname, rfl⟩
      · exact .inl ⟨path, hold, rfl⟩
      · exact .inr (by rwa [joinPath, PathOrder.join_singleton])
    · rintro (⟨path, hold, rfl⟩ | hname)
      · exact ⟨path, h.mem_dirs.mpr (.inl hold), rfl⟩
      · exact ⟨[directory], h.mem_dirs.mpr (.inr ⟨directory, hname, rfl⟩), PathOrder.join_singleton '/' directory⟩
  · have hnodup : ((files staging).map fun file => backupFile K file.1 file.2).Nodup := by
      refine hsorted.imp fun {a b} hlt heq => ?_
      have hself : BackupFile.cmp b b = .eq := Std.ReflCmp.compare_self
      rw [heq, hself] at hlt
      cases hlt
    exact insertionSort_eq hsorted (hperm.nodup_iff.mp hnodup) fun file => hperm.mem_iff

/-! ## Backup and migration -/

/-- When a legacy project that can be collected has a backup and a migration. -/
structure Migratable (K : Crates) (source : ProjectTree) (journal : MigrationJournal) (pointer : BackupPointer) :
    Prop where
  names : NamesInOrder source
  manifest : ManifestFits K source journal pointer
  entries : source.entries.keys.length + (missing source).length + 1 ≤ maxBackupTreeEntries
  bytes : bytesIn (files source) + layoutMarker.length ≤ maxBackupTotalBytes

theorem createMigratedStaging_ok {K : Crates} {source : ProjectTree} {journal : MigrationJournal}
    {pointer : BackupPointer} (hnames : ValidNames journal pointer) (hnormal : LayoutNormal K)
    (hlegacy : LegacyProject source) (hcollect : Collectable K source) (horder : NamesInOrder source)
    (hfits : ManifestFits K source journal pointer) :
    (∃ staging, createMigratedStaging K ⟨journal.backupId, manifestOf K source journal pointer, source⟩
        (manifestOf K source journal pointer) = .ok staging) ↔
      source.entries.keys.length + (missing source).length + 1 ≤ maxBackupTreeEntries ∧
        bytesIn (files source) + layoutMarker.length ≤ maxBackupTotalBytes := by
  have hvalid := (validateBackupManifest_iff hnames hcollect).mpr horder
  obtain ⟨copy, hcopied, hentries⟩ := copyBackupTree_ok hcollect hvalid
  rw [tree_ext hentries] at hcopied
  obtain ⟨staging, hstaging, hmigrated⟩ := extend_ok hlegacy
  obtain ⟨extended, hextended, hmarked⟩ := bind_ok.mp hstaging
  have hverified := (verifyBackupRoot_ok hcollect hvalid none (by simp)).mpr hfits
  have hmarker : staging.entries[[projectLayoutMarker]]? = some (.file layoutMarker) :=
    (hmigrated.entries _ _).mpr (.inr (.inr ⟨rfl, rfl⟩))
  rw [← hmigrated.collectable_iff hlegacy hnormal hcollect]
  constructor
  · rintro ⟨result, hresult⟩
    obtain ⟨copied, hcopy, hrest⟩ := bind_ok.mp hresult
    rw [hcopied] at hcopy
    cases hcopy
    obtain ⟨next, hnext, hrest⟩ := bind_ok.mp hrest
    rw [hextended] at hnext
    cases hnext
    obtain ⟨marked, hwritten, hrest⟩ := bind_ok.mp hrest
    rw [hmarked] at hwritten
    cases hwritten
    have hvalidated := (check_ok.mp hrest).1
    simp only [validateMigratedStaging, check_ok] at hvalidated
    obtain ⟨lists, hlists, -⟩ := bind_ok.mp hvalidated.2.2.2.2
    exact (collectBackupTree_ok.mp hlists).1
  · intro hcollectStaging
    have hlists := hmigrated.expected hlegacy hcollectStaging (hmigrated.namesInOrder hlegacy horder)
    have hvalidated : validateMigratedStaging K staging ⟨journal.backupId, manifestOf K source journal pointer, source⟩
        (manifestOf K source journal pointer) = .ok () :=
      check_ok.mpr ⟨hverified, check_ok.mpr ⟨ensure_ok.mpr rfl, check_ok.mpr ⟨ensure_ok.mpr hmarker,
        check_ok.mpr ⟨hmigrated.inventory hlegacy, bind_ok.mpr ⟨_, collectBackupTree_ok.mpr ⟨hcollectStaging, rfl⟩,
          ensure_ok.mpr (Prod.ext hlists.1.symm hlists.2.symm)⟩⟩⟩⟩⟩
    exact ⟨staging, bind_ok.mpr ⟨source, hcopied, bind_ok.mpr ⟨extended, hextended, bind_ok.mpr ⟨staging, hmarked,
      check_ok.mpr ⟨hvalidated, rfl⟩⟩⟩⟩⟩

/-- A legacy project has a backup and a migration if and only if no two of its directories and no two of its files have
crossing paths, its manifest fits its bound, and the new layout fits the budgets. -/
theorem backup_and_migration_iff (K : Crates) (source : ProjectTree) (journal : MigrationJournal)
    (pointer : BackupPointer) (lists : List Text × List BackupFile) (hnames : ValidNames journal pointer)
    (hnormal : LayoutNormal K) (hlegacy : LegacyProject source) (hcollect : collectBackupTree K source = .ok lists) :
    (∃ backup staging, createBackup K source pointer journal = .ok backup ∧
        createMigratedStaging K backup backup.manifest = .ok staging) ↔ Migratable K source journal pointer := by
  have hcollect := (collectBackupTree_ok.mp hcollect).1
  constructor
  · rintro ⟨backup, staging, hbackup, hstaging⟩
    obtain ⟨horder, hfits, rfl⟩ := (createBackup_ok hnames hcollect).mp hbackup
    obtain ⟨hentries, hbytes⟩ := (createMigratedStaging_ok hnames hnormal hlegacy hcollect horder hfits).mp ⟨staging, hstaging⟩
    exact ⟨horder, hfits, hentries, hbytes⟩
  · intro h
    obtain ⟨staging, hstaging⟩ := (createMigratedStaging_ok hnames hnormal hlegacy hcollect h.names h.manifest).mpr
      ⟨h.entries, h.bytes⟩
    exact ⟨_, staging, (createBackup_ok hnames hcollect).mpr ⟨h.names, h.manifest, rfl⟩, hstaging⟩

/-! ## A site with a directory `docs` -/

def treeOf (entries : List (List Text × Node Bytes)) : ProjectTree :=
  (entries.foldlM (fun tree new => Tree.create tree new.1 new.2) emptyTree).getD emptyTree

/-- A legacy project whose site has a directory `docs` beside a page of the given name. -/
def docsProject (page : String) : ProjectTree := treeOf [
  (["current.json".toList], .file [49]), (["project.json".toList], .file [49]), (["proposals".toList], .dir),
  (["revisions".toList], .dir), (["site".toList], .dir), (["site".toList, page.toList], .file [49]),
  (["site".toList, "docs".toList], .dir), (["site".toList, "docs".toList, "a.html".toList], .file [49])]

def sampleJournal : MigrationJournal := ⟨"bkp_".toList ++ List.replicate 32 '0', "prj_".toList ++ List.replicate 32 '0'⟩

def samplePointer : BackupPointer where
  schemaVersion := storageSchema
  revisionId := "rev_".toList ++ List.replicate 32 '0'
  canonicalManifestSha256 := List.replicate 64 '0'
  artifactManifestSha256 := List.replicate 64 '0'

theorem sample_names : ValidNames sampleJournal samplePointer := ⟨by decide, by decide, by decide⟩

theorem sample_layout : LayoutNormal sampleCrates := fun _ _ => rfl

theorem docsProject_legacy : ∀ page ∈ ["docs.html", "index.html"], LegacyProject (docsProject page) := by
  decide

theorem docsProject_collectable :
    ∀ page ∈ ["docs.html", "index.html"], Collectable sampleCrates (docsProject page) := by
  have hpaths : ∀ page ∈ ["docs.html", "index.html"], ∀ path ∈ (docsProject page).entries.keys,
      path.all (backupPart sampleCrates) = true ∧ path ≠ [] ∧ path.length ≤ maxBackupTreeDepth ∧
      byteLength (joinPath path) ≤ 4 * maxPathBytes := by decide
  have hbounds : ∀ page ∈ ["docs.html", "index.html"],
      (docsProject page).entries.keys.length ≤ maxBackupTreeEntries ∧
      (∀ file ∈ files (docsProject page), file.2.length ≤ maxBackupFileBytes) ∧
      bytesIn (files (docsProject page)) ≤ maxBackupTotalBytes := by decide
  intro page hpage
  obtain ⟨hcount, heach, htotal⟩ := hbounds page hpage
  exact ⟨fun path hpath => ⟨(hpaths page hpage path hpath).1, (hpaths page hpage path hpath).2.1,
    (hpaths page hpage path hpath).2.2.1, (hpaths page hpage path hpath).2.2.2⟩, hcount, heach, htotal⟩

set_option maxRecDepth 100000 in
theorem indexProject_migratable :
    Migratable sampleCrates (docsProject "index.html") sampleJournal samplePointer := by
  have hcollect := docsProject_collectable "index.html" (by decide)
  have hpaths : ∀ path ∈ (files (docsProject "index.html")).map Prod.fst, ValidPath sampleCrates path := by
    intro path hpath
    obtain ⟨file, hfile, rfl⟩ := List.mem_map.mp hpath
    exact hcollect.file hfile
  refine ⟨⟨?_, ?_⟩, ?_, by decide, by decide⟩
  · exact (increasing_join_iff (fun path => hcollect.dir) (dirs_sorted _)).mp (by decide)
  · exact (increasing_join_iff hpaths (files_sorted _)).mp (by decide)
  · change (canonicalBytes _).length ≤ maxBackupManifestBytes
    decide

theorem backup_and_migration_of_index : ∃ backup staging,
    createBackup sampleCrates (docsProject "index.html") samplePointer sampleJournal = .ok backup ∧
    createMigratedStaging sampleCrates backup backup.manifest = .ok staging :=
  (backup_and_migration_iff sampleCrates (docsProject "index.html") sampleJournal samplePointer _ sample_names
    sample_layout (docsProject_legacy _ (by decide))
    (collectBackupTree_ok.mpr ⟨docsProject_collectable _ (by decide), rfl⟩)).mpr indexProject_migratable

theorem no_backup_beside_docs : LegacyProject (docsProject "docs.html") ∧
    (∃ lists, collectBackupTree sampleCrates (docsProject "docs.html") = .ok lists ∧
      validateBackupManifest sampleCrates (backupManifest sampleJournal samplePointer lists.1 lists.2) ≠ .ok ()) ∧
    ¬∃ backup, createBackup sampleCrates (docsProject "docs.html") samplePointer sampleJournal = .ok backup := by
  have hcollect := docsProject_collectable "docs.html" (by decide)
  have hnames : ¬NamesInOrder (docsProject "docs.html") := by
    intro h
    refine h.files ["site".toList, "docs".toList, "a.html".toList] (by decide)
      ["site".toList, "docs.html".toList] (by decide) ?_
    exact ⟨["site".toList], "docs".toList, '.', "html".toList, "a.html".toList, [], [], rfl, rfl, by decide⟩
  refine ⟨docsProject_legacy _ (by decide), ⟨_, collectBackupTree_ok.mpr ⟨hcollect, rfl⟩, ?_⟩, ?_⟩
  · exact fun h => hnames ((validateBackupManifest_iff sample_names hcollect).mp h)
  · rintro ⟨backup, h⟩
    exact hnames ((createBackup_ok sample_names hcollect).mp h).1

end LpStudio.Storage.Backup
