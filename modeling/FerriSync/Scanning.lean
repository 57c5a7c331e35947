/-
# What a scan lists

`SyncRoot::scan` (`filesystem/root.rs`) walks the directories of a folder, follows
no link, and lists each file but those named `metadata.db` (`mem_filesBelow`). A path is
listed as it is displayed, every sequence of bytes that is no character's having become
the same replacement character, and it is under that path that the other parts of the
program look for the file. So the scan lists the files as they are exactly if every name on the
way to one of them is text (`scan_exact_iff`): another one's path leads to a different
place (`denotes_iff`).

What the system lists of a directory is what stands in it, under names that an entry
can have.

Key definitions: `SyncRoot.scan`, `filesBelow`, `Scannable`, `Denotes`, `ScanExact`.
Key theorems: `scanDir_eq`, `mem_filesBelow`, `filesBelow_nodup`, `denotes_iff`,
`scan_exact_iff`.
-/
import FerriSync.Serving

namespace FerriSync

open FileTree

/-- A name that an entry of a directory can have. -/
structure EntryName (n : OsStr) : Prop where
  ne_nil : n ≠ []
  no_slash : .char '/' ∉ n
  no_nul : .char (Char.ofNat 0) ∉ n
  not_dot : n ≠ osStr ['.']
  not_dotdot : n ≠ osStr ['.', '.']

/-- What the system lists: what there is, each once. -/
structure Handler.Lists (h : Handler) (t : Disk) (root : List OsStr) : Prop where
  nodup : ∀ dir, (h.readDir t dir).Nodup
  complete : ∀ dir n, t.isDir dir = true → (n ∈ h.readDir t dir ↔ t.node (dir ++ [n]) ≠ none)
  deep : ∀ rel, t.node (root ++ rel) ≠ none → rel.length ≤ h.depth
  named : ∀ dir n, t.node (dir ++ [n]) ≠ none → EntryName n

section

variable (h : Handler) (t : Disk) (root : List OsStr)

/-- One file as the scan lists it. -/
def SyncRoot.scannedEntry (f : ScannedFile) : SnapshotEntry where
  path := ⟨displayed root f.place⟩
  kind := .file
  size := f.data.length
  hash := h.blake3 f.data
  version := .new
  mtime := Int64.ofInt (max 0 (h.mtime t f.place))

/-- `SyncRoot::scan`. -/
def SyncRoot.scan (folderId : FolderId) (generation : UInt64) (fs : Fs) : Except Fault Snapshot × Fs :=
  match scanDir h h.depth root fs with
  | (.error e, fs) => (.error e, fs)
  | (.ok files, fs) => (.ok ⟨folderId, generation, files.map (scannedEntry h fs.disk root)⟩, fs)

/-- What an entry contributes. -/
def filesAt (below : List OsStr → List ScannedFile) (place : List OsStr) : List ScannedFile :=
  match t.node place with
  | some .dir => below place
  | some (.file data) => if scanSkips place = true then [] else [⟨place, data⟩]
  | _ => []

/-- The files that the scan of a directory finds, in the order of the listings. -/
def filesBelow : ℕ → List OsStr → List ScannedFile
  | 0, _ => []
  | depth + 1, dir => (h.readDir t dir).flatMap fun n => filesAt t (filesBelow depth) (dir ++ [n])

/-- A file in the folder that is to be listed. There is no link on the way to a place. -/
def Scannable (place : List OsStr) : Prop :=
  root <+: place ∧ (∃ data, t.node place = some (.file data)) ∧ scanSkips place = false

/-- The path that is listed is accepted, and leads to this file. -/
def Denotes (e : SnapshotEntry) (place : List OsStr) (data : Bytes) : Prop :=
  ∃ p, SyncRoot.safeJoin t root e.path.val = .ok p ∧ t.read maxLinks [] p.steps = .ok (place, data)

/-- The entries are the files that are to be listed, and each can be found under its path. -/
structure ScanExact (entries : List SnapshotEntry) : Prop where
  distinct : (entries.map (·.path)).Nodup
  opens : ∀ e ∈ entries, ∃ place data, Scannable t root place ∧ Denotes t root e place data ∧
    e.size = data.length ∧ e.hash = h.blake3 data
  covers : ∀ place, Scannable t root place → ∃ e ∈ entries, ∃ data, Denotes t root e place data

end

/-- The names below the root are text. -/
def TextBelow (root place : List OsStr) : Prop :=
  ∀ n ∈ place.drop root.length, ∃ cs, n = osStr cs

/-! ### What is found -/

section

variable {h : Handler} {t : Disk} {root dir rel place : List OsStr} {depth : ℕ} {n : OsStr}

theorem scanEntryAt_eq {enter : List OsStr → Fs → Except Fault (List ScannedFile) × Fs}
    {below : List OsStr → List ScannedFile}
    (henter : ∀ place, t.isDir place = true → ∀ fs, fs.disk = t →
      (enter place fs).1 = .ok (below place) ∧ (enter place fs).2.disk = t)
    (hnode : t.node (dir ++ [n]) ≠ none) {fs : Fs} (hfs : fs.disk = t) :
    (scanEntryAt enter (dir ++ [n]) fs).1 = .ok (filesAt t below (dir ++ [n])) ∧
      (scanEntryAt enter (dir ++ [n]) fs).2.disk = t := by
  unfold scanEntryAt filesAt
  subst hfs
  cases hplace : fs.disk.node (dir ++ [n]) with
  | none => exact absurd hplace hnode
  | some x =>
    cases x with
    | link absolute steps => exact ⟨rfl, rfl⟩
    | dir => exact henter _ (Tree.isDir_iff.mpr hplace) fs rfl
    | file data =>
      dsimp only
      by_cases hskips : scanSkips (dir ++ [n]) = true
      · rw [if_pos hskips, if_pos hskips]
        exact ⟨rfl, rfl⟩
      · rw [if_neg hskips, if_neg hskips, (read_entry hplace).2]
        exact ⟨rfl, rfl⟩

theorem scanEntries_eq {enter : List OsStr → Fs → Except Fault (List ScannedFile) × Fs}
    {below : List OsStr → List ScannedFile}
    (henter : ∀ place, t.isDir place = true → ∀ fs, fs.disk = t →
      (enter place fs).1 = .ok (below place) ∧ (enter place fs).2.disk = t)
    (names : List OsStr) (hnames : ∀ n ∈ names, t.node (dir ++ [n]) ≠ none) {fs : Fs}
    (hfs : fs.disk = t) :
    (scanEntries enter dir names fs).1 =
        .ok (names.flatMap fun n => filesAt t below (dir ++ [n])) ∧
      (scanEntries enter dir names fs).2.disk = t := by
  induction names generalizing fs with
  | nil => exact ⟨rfl, hfs⟩
  | cons n names ih =>
    obtain ⟨hfound, hdisk⟩ := scanEntryAt_eq henter (hnames n List.mem_cons_self) hfs
    obtain ⟨hrest, hdisk'⟩ := ih (fun m hm => hnames m (List.mem_cons_of_mem n hm)) hdisk
    rw [scanEntries]
    generalize scanEntryAt enter (dir ++ [n]) fs = first at *
    obtain ⟨found, fs'⟩ := first
    obtain rfl : found = .ok (filesAt t below (dir ++ [n])) := hfound
    dsimp only at hrest hdisk' ⊢
    generalize scanEntries enter dir names fs' = second at *
    obtain ⟨rest, fs''⟩ := second
    obtain rfl : rest = .ok (names.flatMap fun n => filesAt t below (dir ++ [n])) := hrest
    exact ⟨by rw [List.flatMap_cons], hdisk'⟩

/-- **The scan goes through**, and finds what stands below the directory. -/
theorem scanDir_eq (hlists : h.Lists t root) (hdir : t.isDir dir = true) {fs : Fs} (hfs : fs.disk = t) :
    (scanDir h depth dir fs).1 = .ok (filesBelow h t depth dir) ∧
      (scanDir h depth dir fs).2.disk = t := by
  induction depth generalizing dir fs with
  | zero => exact ⟨rfl, hfs⟩
  | succ depth ih =>
    rw [scanDir, filesBelow, hfs]
    refine scanEntries_eq (fun place hplace fs hfs => ih hplace hfs) _ ?_ rfl
    intro n hn
    exact (hlists.complete dir n hdir).mp hn

/-- **What is found**: the files below, as deep as the scan goes. -/
theorem mem_filesBelow (hlists : h.Lists t root) {f : ScannedFile} (hdir : t.isDir dir = true) :
    f ∈ filesBelow h t depth dir ↔ ∃ rel, rel ≠ [] ∧ rel.length ≤ depth ∧ f.place = dir ++ rel ∧
      t.node f.place = some (.file f.data) ∧ scanSkips f.place = false := by
  induction depth generalizing dir with
  | zero =>
    constructor
    · intro hf
      cases hf
    · intro ⟨rel, hrel, hlen, _⟩
      exact absurd (List.length_eq_zero_iff.mp (Nat.le_zero.mp hlen)) hrel
  | succ depth ih =>
    rw [filesBelow, List.mem_flatMap]
    constructor
    · intro ⟨n, hn, hf⟩
      unfold filesAt at hf
      split at hf
      · next hnode =>
        obtain ⟨rel, -, hlen, hplace, hfile⟩ := (ih (Tree.isDir_iff.mpr hnode)).mp hf
        refine ⟨n :: rel, by simp, ?_, by rw [hplace, List.append_assoc]; rfl, hfile⟩
        rw [List.length_cons]
        omega
      · next data hnode =>
        split_ifs at hf with hskips
        · cases hf
        · rw [List.mem_singleton.mp hf]
          refine ⟨[n], by simp, ?_, rfl, hnode, Bool.not_eq_true _ ▸ hskips⟩
          rw [List.length_singleton]
          omega
      · cases hf
    · intro ⟨rel, hrel, hlen, hplace, hnode, hskips⟩
      obtain ⟨n, rel, rfl⟩ := List.exists_cons_of_ne_nil hrel
      have hplace' : f.place = (dir ++ [n]) ++ rel := by
        rw [hplace, List.append_assoc]
        rfl
      by_cases hlast : rel = []
      · rw [hlast, List.append_nil] at hplace'
        rw [hplace'] at hnode hskips
        refine ⟨n, (hlists.complete dir n hdir).mpr (by rw [hnode]; simp), ?_⟩
        simp only [filesAt, hnode, hskips, Bool.false_eq_true, if_false, List.mem_singleton]
        rw [← hplace']
      · have hbelow : t.isDir (dir ++ [n]) = true := by
          apply Tree.isDir_of_append hlast
          rw [← hplace', hnode]
          simp
        have hnode' := Tree.isDir_iff.mp hbelow
        refine ⟨n, (hlists.complete dir n hdir).mpr (by rw [hnode']; simp), ?_⟩
        simp only [filesAt, hnode']
        rw [List.length_cons] at hlen
        exact (ih hbelow).mpr ⟨rel, hlast, by omega, hplace', hnode, hskips⟩

/-- What an entry contributes stands at it or below it. -/
theorem prefix_of_mem_filesAt (hlists : h.Lists t root) {f : ScannedFile}
    (hf : f ∈ filesAt t (filesBelow h t depth) place) : place <+: f.place := by
  unfold filesAt at hf
  split at hf
  · next hnode =>
    obtain ⟨rel, -, -, hplace, -⟩ := (mem_filesBelow hlists (Tree.isDir_iff.mpr hnode)).mp hf
    rw [hplace]
    exact List.prefix_append place rel
  · split_ifs at hf
    · cases hf
    · rw [List.mem_singleton.mp hf]
  · cases hf

/-- **No file is found twice.** -/
theorem filesBelow_nodup (hlists : h.Lists t root) (hdir : t.isDir dir = true) :
    ((filesBelow h t depth dir).map (·.place)).Nodup := by
  induction depth generalizing dir with
  | zero => exact List.nodup_nil
  | succ depth ih =>
    rw [filesBelow, List.map_flatMap, List.nodup_flatMap]
    constructor
    · intro n hn
      unfold filesAt
      split
      · next hnode => exact ih (Tree.isDir_iff.mpr hnode)
      · split_ifs
        · exact List.nodup_nil
        · exact List.nodup_singleton _
      · exact List.nodup_nil
    · refine (hlists.nodup dir).imp fun {n m} hne => ?_
      intro place hn hm
      obtain ⟨f, hf, rfl⟩ := List.mem_map.mp hn
      obtain ⟨g, hg, hsame⟩ := List.mem_map.mp hm
      have hprefix := prefix_of_mem_filesAt hlists hf
      have hprefix' := prefix_of_mem_filesAt hlists hg
      rw [hsame] at hprefix'
      have heq := (List.prefix_of_prefix_length_le hprefix hprefix' (by simp)).eq_of_length (by simp)
      apply hne
      simpa using heq

/-! ### What it is listed as -/

/-- A name as it is displayed. -/
def lossy (n : OsStr) : List Char :=
  n.map fun
    | .char c => c
    | .malformed _ => Char.ofNat 0xfffd

theorem osStr_lossy (n : OsStr) : osStr (lossy n) = OsStr.display n := by
  unfold osStr lossy OsStr.display
  rw [List.map_map]
  apply List.map_congr_left
  intro c _
  cases c with
  | char c => rfl
  | malformed bytes => rfl

/-- A character that is not the replacement comes from the name. -/
theorem mem_of_mem_lossy {c : Char} (hc : c ∈ lossy n) (hne : c ≠ Char.ofNat 0xfffd) : .char c ∈ n := by
  obtain ⟨x, hx, hxc⟩ := List.mem_map.mp hc
  cases x with
  | char d =>
    have hd : d = c := hxc
    rwa [← hd]
  | malformed bytes => exact absurd hxc.symm hne

theorem eq_of_lossy_eq {cs : List Char} (hcs : Char.ofNat 0xfffd ∉ cs) (hn : lossy n = cs) :
    n = osStr cs := by
  have hall : ∀ x ∈ n, (OsStr.display [x]) = [x] := by
    intro x hx
    cases x with
    | char c => rfl
    | malformed bytes =>
      rw [← hn] at hcs
      exact absurd (List.mem_map.mpr ⟨_, hx, rfl⟩) hcs
  rw [← hn, osStr_lossy]
  unfold OsStr.display
  conv_lhs => rw [← List.map_id n]
  apply List.map_congr_left
  intro x hx
  exact (List.singleton_inj.mp (hall x hx)).symm

/-- What is displayed of a name is a name. -/
theorem exists_fileName (hn : EntryName n) : ∃ m : FileName, m.chars = lossy n := by
  have hdots : Char.ofNat 0xfffd ∉ ['.'] ∧ Char.ofNat 0xfffd ∉ ['.', '.'] := by decide
  refine ⟨⟨lossy n, ?_, ?_, ?_, ?_, ?_⟩, rfl⟩
  · intro hnil
    exact hn.ne_nil (List.map_eq_nil_iff.mp hnil)
  · intro hmem
    exact hn.no_slash (mem_of_mem_lossy hmem (by decide))
  · intro hmem
    exact hn.no_nul (mem_of_mem_lossy hmem (by decide))
  · intro heq
    exact hn.not_dot (eq_of_lossy_eq hdots.1 heq)
  · intro heq
    exact hn.not_dotdot (eq_of_lossy_eq hdots.2 heq)

/-- What is displayed of a path is a path. -/
theorem exists_relPath (hnames : ∀ n ∈ rel, EntryName n) :
    ∃ q : RelPath, q.map (·.chars) = rel.map lossy := by
  induction rel with
  | nil => exact ⟨[], rfl⟩
  | cons n rel ih =>
    obtain ⟨m, hm⟩ := exists_fileName (hnames n List.mem_cons_self)
    obtain ⟨q, hq⟩ := ih fun m hm => hnames m (List.mem_cons_of_mem n hm)
    exact ⟨m :: q, by rw [List.map_cons, List.map_cons, hm, hq]⟩

/-- **The string that is listed** resolves to the displayed names. -/
theorem safeJoin_displayed (hnames : ∀ n ∈ rel, EntryName n) (hrel : rel ≠ []) :
    ∃ q : RelPath, FerriSync.safeJoin (displayed root (root ++ rel)) = .ok ⟨q, false⟩ ∧
      q.map osName = rel.map OsStr.display ∧ displayed root (root ++ rel) = render q := by
  obtain ⟨q, hq⟩ := exists_relPath hnames
  have hne : q ≠ [] := by
    intro hnil
    rw [hnil, List.map_nil] at hq
    exact hrel (List.map_eq_nil_iff.mp hq.symm)
  have hstring : displayed root (root ++ rel) = render q := by
    unfold displayed render
    rw [List.drop_left, hq]
    rfl
  refine ⟨q, by rw [hstring, safeJoin_render q hne], ?_, hstring⟩
  calc q.map osName = (q.map (·.chars)).map osStr := by rw [List.map_map]; rfl
    _ = rel.map OsStr.display := by
      rw [hq, List.map_map]
      exact List.map_congr_left fun n _ => osStr_lossy n

/-- **Where a listed path leads**: to the place of the displayed names, if anywhere. -/
theorem place_of_denotes (hroot : t.isDir root = true) (hnames : ∀ n ∈ rel, EntryName n)
    (hrel : rel ≠ []) {e : SnapshotEntry} (he : e.path.val = displayed root (root ++ rel))
    {data : Bytes} (hdenotes : Denotes t root e place data) :
    place = root ++ rel.map OsStr.display := by
  obtain ⟨p, hjoin, hread⟩ := hdenotes
  obtain ⟨q, hq, hchars, -⟩ := @safeJoin_displayed root _ hnames hrel
  rw [he] at hjoin
  obtain ⟨target, htarget, rfl, hlinks, -⟩ := (SyncRoot.safeJoin_ok_iff hroot).mp hjoin
  rw [hq] at htarget
  obtain rfl := Except.ok.inj htarget
  have hplace : OsPath.join root ⟨q, false⟩ = ⟨root ++ rel.map OsStr.display, false⟩ := by
    rw [← hchars]
    rfl
  rw [hchars] at hlinks
  rw [hplace] at hread
  unfold Tree.read at hread
  split at hread
  · cases hread
  · next d hwalk =>
    split at hread
    · rw [← (Prod.mk.inj (Except.ok.inj hread)).1]
      exact place_of_noLinks hroot hlinks hwalk
    · cases hread
    · cases hread
    · cases hread

/-- A file under names that are text is found under its listed path. -/
theorem denotes_of_text (hroot : t.isDir root = true) (hnames : ∀ n ∈ rel, EntryName n)
    (hrel : rel ≠ []) (htext : ∀ n ∈ rel, ∃ cs, n = osStr cs) {e : SnapshotEntry}
    (he : e.path.val = displayed root (root ++ rel)) {data : Bytes}
    (hnode : t.node (root ++ rel) = some (.file data)) : Denotes t root e (root ++ rel) data := by
  have hsame : rel.map OsStr.display = rel := by
    conv_rhs => rw [← List.map_id rel]
    apply List.map_congr_left
    intro n hn
    obtain ⟨cs, rfl⟩ := htext n hn
    exact display_osStr cs
  obtain ⟨q, hq, hchars, -⟩ := @safeJoin_displayed root _ hnames hrel
  rw [hsame] at hchars
  have hplace : OsPath.join root ⟨q, false⟩ = ⟨root ++ rel, false⟩ := by
    rw [← hchars]
    rfl
  have hlinks : NoLinks t root rel false := noLinks_of_file hnode
  refine ⟨⟨root ++ rel, false⟩, ?_, ?_⟩
  · refine (SyncRoot.safeJoin_ok_iff hroot).mpr ⟨⟨q, false⟩, by rw [he, hq], hplace.symm, ?_, ?_⟩
    · rwa [hchars]
    · intro d hd
      rw [canonicalize_lexical hroot hlinks hd]
      exact List.prefix_append root rel
  · obtain ⟨init, n, rfl⟩ := (List.eq_nil_or_concat rel).resolve_left hrel
    rw [List.concat_eq_append, ← List.append_assoc] at hnode ⊢
    exact (@read_entry (root ++ init) ⟨t, []⟩ n data hnode).1

/-- Below the root all names are names of entries. -/
theorem entryName_of_node (hlists : h.Lists t root) (hnode : t.node (root ++ rel) ≠ none) :
    ∀ n ∈ rel, EntryName n := by
  intro n hn
  obtain ⟨before, after, rfl⟩ := List.append_of_mem hn
  apply hlists.named (root ++ before) n
  have hsplit : root ++ (before ++ n :: after) = (root ++ before ++ [n]) ++ after := by simp
  rw [hsplit] at hnode
  by_cases hafter : after = []
  · rwa [hafter, List.append_nil] at hnode
  · rw [Tree.isDir_iff.mp (Tree.isDir_of_append hafter hnode)]
    simp

/-- The scan finds what is to be listed. -/
theorem mem_scanned_iff (hlists : h.Lists t root) (hroot : t.isDir root = true) :
    Scannable t root place ↔ ∃ f ∈ filesBelow h t h.depth root, f.place = place := by
  constructor
  · intro ⟨hbelow, ⟨data, hnode⟩, hskips⟩
    obtain ⟨rel, rfl⟩ := hbelow
    have hrel : rel ≠ [] := by
      intro hnil
      rw [hnil, List.append_nil, Tree.isDir_iff.mp hroot] at hnode
      cases hnode
    refine ⟨⟨root ++ rel, data⟩, (mem_filesBelow hlists hroot).mpr ?_, rfl⟩
    exact ⟨rel, hrel, hlists.deep rel (by rw [hnode]; simp), rfl, hnode, hskips⟩
  · intro ⟨f, hf, hplace⟩
    obtain ⟨rel, -, -, hrel, hnode, hskips⟩ := (mem_filesBelow hlists hroot).mp hf
    subst hplace
    exact ⟨hrel ▸ List.prefix_append root rel, ⟨_, hnode⟩, hskips⟩

/-- Where a file that is found stands. -/
theorem rel_of_mem (hlists : h.Lists t root) (hroot : t.isDir root = true) {f : ScannedFile}
    (hf : f ∈ filesBelow h t h.depth root) : ∃ rel, rel ≠ [] ∧ f.place = root ++ rel ∧
      t.node (root ++ rel) = some (.file f.data) ∧ ∀ n ∈ rel, EntryName n := by
  obtain ⟨rel, hrel, -, hplace, hnode, -⟩ := (mem_filesBelow hlists hroot).mp hf
  rw [hplace] at hnode
  exact ⟨rel, hrel, hplace, hnode, entryName_of_node hlists (by rw [hnode]; simp)⟩

/-- **What every entry leads to, if all are to be found**: only names that are text. -/
theorem textBelow_of_covers (hlists : h.Lists t root) (hroot : t.isDir root = true)
    {e : SnapshotEntry}
    (he : e ∈ (filesBelow h t h.depth root).map (SyncRoot.scannedEntry h t root)) {data : Bytes}
    (hdenotes : Denotes t root e place data) : TextBelow root place := by
  obtain ⟨f, hf, rfl⟩ := List.mem_map.mp he
  obtain ⟨rel, hrel, hplace, -, hnames⟩ := rel_of_mem hlists hroot hf
  have hpath : (SyncRoot.scannedEntry h t root f).path.val = displayed root (root ++ rel) := by
    rw [← hplace]
    rfl
  rw [place_of_denotes hroot hnames hrel hpath hdenotes]
  intro n hn
  rw [List.drop_left] at hn
  obtain ⟨m, -, rfl⟩ := List.mem_map.mp hn
  exact ⟨lossy m, (osStr_lossy m).symm⟩

theorem scanExact_of_text (hlists : h.Lists t root) (hroot : t.isDir root = true)
    (htext : ∀ place, Scannable t root place → TextBelow root place) :
    ScanExact h t root ((filesBelow h t h.depth root).map (SyncRoot.scannedEntry h t root)) := by
  have hfile : ∀ f ∈ filesBelow h t h.depth root, Scannable t root f.place ∧
      Denotes t root (SyncRoot.scannedEntry h t root f) f.place f.data := by
    intro f hf
    have hscannable := (mem_scanned_iff hlists hroot).mpr ⟨f, hf, rfl⟩
    obtain ⟨rel, hrel, hplace, hnode, hnames⟩ := rel_of_mem hlists hroot hf
    have hbelow := htext f.place hscannable
    refine ⟨hscannable, ?_⟩
    unfold TextBelow at hbelow
    rw [hplace, List.drop_left] at hbelow
    rw [hplace]
    exact denotes_of_text hroot hnames hrel hbelow (by rw [← hplace]; rfl) hnode
  refine ⟨?_, ?_, ?_⟩
  · rw [List.map_map]
    refine List.Nodup.map_on ?_ (List.Nodup.of_map _ (filesBelow_nodup hlists hroot))
    intro f hf g hg hsame
    obtain ⟨p, hjoin, hread⟩ := (hfile f hf).2
    obtain ⟨p', hjoin', hread'⟩ := (hfile g hg).2
    have hpath : (SyncRoot.scannedEntry h t root f).path = (SyncRoot.scannedEntry h t root g).path :=
      hsame
    rw [hpath, hjoin'] at hjoin
    rw [← Except.ok.inj hjoin, hread'] at hread
    obtain ⟨hplace, hdata⟩ := Prod.mk.inj (Except.ok.inj hread)
    obtain ⟨p, d⟩ := f
    obtain ⟨p', d'⟩ := g
    exact congrArg₂ ScannedFile.mk hplace.symm hdata.symm
  · intro e he
    obtain ⟨f, hf, rfl⟩ := List.mem_map.mp he
    exact ⟨f.place, f.data, (hfile f hf).1, (hfile f hf).2, rfl, rfl⟩
  · intro place hplace
    obtain ⟨f, hf, rfl⟩ := (mem_scanned_iff hlists hroot).mp hplace
    exact ⟨_, List.mem_map_of_mem hf, f.data, (hfile f hf).2⟩

/-- The scan of a directory goes through. -/
theorem scan_eq (hlists : h.Lists t root) (hroot : t.isDir root = true) (folderId : FolderId)
    (generation : UInt64) (accesses : List Access) :
    (SyncRoot.scan h root folderId generation ⟨t, accesses⟩).1 = .ok ⟨folderId, generation,
      (filesBelow h t h.depth root).map (SyncRoot.scannedEntry h t root)⟩ := by
  have hscan : (scanDir h h.depth root ⟨t, accesses⟩).1 = .ok (filesBelow h t h.depth root) ∧
      (scanDir h h.depth root ⟨t, accesses⟩).2.disk = t := scanDir_eq hlists hroot rfl
  unfold SyncRoot.scan
  generalize scanDir h h.depth root ⟨t, accesses⟩ = result at *
  obtain ⟨files, fs⟩ := result
  obtain ⟨rfl, hdisk⟩ := hscan
  dsimp only at hdisk ⊢
  rw [hdisk]

end

/-- **The scan lists the files as they are exactly if** the names on the way to each
are text. -/
theorem scan_exact_iff (h : Handler) (t : Disk) (root : List OsStr) (hroot : t.isDir root = true)
    (hlists : h.Lists t root) (folderId : FolderId) (generation : UInt64) (accesses : List Access) :
    ∃ snapshot, (SyncRoot.scan h root folderId generation ⟨t, accesses⟩).1 = .ok snapshot ∧
      (ScanExact h t root snapshot.entries ↔
        ∀ place, Scannable t root place → TextBelow root place) := by
  refine ⟨_, scan_eq hlists hroot folderId generation accesses, ?_, scanExact_of_text hlists hroot⟩
  intro hexact place hplace
  obtain ⟨e, he, data, hdenotes⟩ := hexact.covers place hplace
  exact textBelow_of_covers hlists hroot he hdenotes

/-- A folder with one file. -/
def oneFile (n : OsStr) : Disk := Tree.empty.set [n] (some (.file [114]))

/-- A handler of that folder. -/
def oneFileHandler (n : OsStr) : Handler :=
  { srvHandler with readDir := fun _ dir => if dir = [] then [n] else [], depth := 1 }

theorem node_oneFile (n : OsStr) (p : List OsStr) : (oneFile n).node p =
    if p = [n] then some (.file [114]) else if p = [] then some .dir else none := by
  have hset : [n] ≠ [] ∧ (Tree.empty : Disk).isDir [n].dropLast = true ∧
      (Tree.empty : Disk).isDir [n] = false := ⟨by simp, rfl, rfl⟩
  unfold oneFile Tree.set
  rw [dif_pos hset]
  by_cases hp : p = [n]
  · simp [hp]
  · cases p with
    | nil => rfl
    | cons m p => simp [hp, Tree.empty]

theorem lists_oneFile {n : OsStr} (hn : EntryName n) : (oneFileHandler n).Lists (oneFile n) [] := by
  have hnode : ∀ dir m, (oneFile n).node (dir ++ [m]) ≠ none ↔ dir = [] ∧ m = n := by
    intro dir m
    rw [node_oneFile]
    cases dir with
    | nil => simp
    | cons k dir => simp
  refine ⟨?_, ?_, ?_, ?_⟩
  · intro dir
    show (if dir = [] then [n] else []).Nodup
    split_ifs
    · exact List.nodup_singleton n
    · exact List.nodup_nil
  · intro dir m hdir
    rw [hnode]
    show m ∈ (if dir = [] then [n] else []) ↔ _
    split_ifs with hnil
    · simp [hnil]
    · simp [hnil]
  · intro rel hrel
    show rel.length ≤ 1
    rw [List.nil_append, node_oneFile] at hrel
    split_ifs at hrel with hone hnil
    · simp [hone]
    · simp [hnil]
    · exact absurd rfl hrel
  · intro dir m hm
    obtain ⟨-, rfl⟩ := (hnode dir m).mp hm
    exact hn

theorem scan_exact_readme :
    ∃ snapshot, (SyncRoot.scan (oneFileHandler (word "readme")) [] ⟨1⟩ 0
        ⟨oneFile (word "readme"), []⟩).1 = .ok snapshot ∧
      (ScanExact (oneFileHandler (word "readme")) (oneFile (word "readme")) [] snapshot.entries ↔
        ∀ place, Scannable (oneFile (word "readme")) [] place → TextBelow [] place) :=
  scan_exact_iff (oneFileHandler (word "readme")) (oneFile (word "readme")) [] rfl
    (lists_oneFile ⟨by decide, by decide, by decide, by decide, by decide⟩) ⟨1⟩ 0 []

/-- A file whose name is one byte that is no character is listed under another name. -/
theorem scan_loses_name : ¬ ∀ (h : Handler) (t : Disk) (root : List OsStr), t.isDir root = true →
    h.Lists t root → ∀ folderId generation accesses, ∃ snapshot,
      (SyncRoot.scan h root folderId generation ⟨t, accesses⟩).1 = .ok snapshot ∧
        ScanExact h t root snapshot.entries := by
  intro hall
  have hlists : (oneFileHandler [.malformed [0xff]]).Lists (oneFile [.malformed [0xff]]) [] :=
    lists_oneFile ⟨by decide, by decide, by decide, by decide, by decide⟩
  obtain ⟨snapshot, hscan, hexact⟩ := hall _ _ [] rfl hlists ⟨1⟩ 0 []
  rw [scan_eq hlists rfl] at hscan
  obtain rfl := Except.ok.inj hscan
  have hnode : (oneFile [.malformed [0xff]]).node [[.malformed [0xff]]] = some (.file [114]) := by
    rw [node_oneFile, if_pos rfl]
  have hplace : Scannable (oneFile [.malformed [0xff]]) [] [[.malformed [0xff]]] :=
    ⟨List.nil_prefix, ⟨[114], hnode⟩, by decide⟩
  obtain ⟨e, he, data, hdenotes⟩ := hexact.covers _ hplace
  obtain ⟨cs, hcs⟩ := textBelow_of_covers hlists rfl he hdenotes [.malformed [0xff]] (by simp)
  cases cs with
  | nil => cases hcs
  | cons c cs => cases hcs

end FerriSync
