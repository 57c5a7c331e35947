/-
# The database in the folder

The scan skips every file named `metadata.db`, wherever it stands. The handlers
of a received file and of a requested one refuse the string `metadata.db` and no
other, so a string that names such a file another way, or in a directory, has it
read, moved away and written (`metadata_spared_iff`). So does a string whose
temporary name is a link to one.

Key definitions: `scanSkips`, `Spared`, `NamesSkipped`, `TempLeadsToSkipped`.
Key theorems: `commit_creates`, `metadata_spared_iff`.
-/
import FerriSync.Confine

namespace FerriSync

open FileTree

/-- `scan_dir` skips the file at this place. -/
def scanSkips (place : List OsStr) : Bool :=
  decide (place.getLast? = some (osStr Folder.metadataName))

namespace Access

/-- The files that are read, moved or written. -/
def files : Access → List (List OsStr)
  | made _ => []
  | listed _ => []
  | a => a.places

/-- A file in the folder that the scan skips is read, moved or written. -/
def TouchesSkipped (root : List OsStr) (a : Access) : Prop :=
  ∃ p ∈ a.files, root <+: p ∧ scanSkips p = true

end Access

section

variable (blake3 : Bytes → FileHash) (t : Disk) (root : List OsStr) (localPath : LocalPath)
  (s : String)

/-- Whatever is received or requested under the string, no file that the scan
skips is touched. -/
structure Spared : Prop where
  commit : ∀ c : Commit, c.path = s →
    ∀ a ∈ (commitReceived blake3 root localPath c ⟨t, []⟩).2.accesses, ¬a.TouchesSkipped root
  serve : ∀ a ∈ (serveRequested root s ⟨t, []⟩).2.accesses, ¬a.TouchesSkipped root

/-- The string names a file that the scan skips, and it is there or can be made. -/
def NamesSkipped : Prop :=
  ∃ target, FerriSync.safeJoin s = .ok target ∧
    SyncRoot.safeJoin t root s = .ok (.join root target) ∧ Folder.skipped target.path = true ∧
    ((∃ data, t.read maxLinks [] (OsPath.join root target).steps =
      .ok ((OsPath.join root target).names, data)) ∨ Creatable t root (.join root target))

/-- The string names no directory that exists, and its temporary name is a link
to a file in the folder that the scan skips. -/
def TempLeadsToSkipped : Prop :=
  ∃ p place, SyncRoot.safeJoin t root s = .ok p ∧
    (∀ d, SyncRoot.canonicalize t p = .ok d → t.isDir d = false) ∧
    t.isLink (p.withExtension tmpExtension).names = true ∧ WrittenAt t p place ∧
    root <+: place ∧ scanSkips place = true

end

/-! ### Which names the scan skips -/

section

variable {root q : List OsStr} {n : OsStr} {asDir : Bool} {fs fs' fs₁ : Fs} {p : OsPath} {t : Disk}
variable {blake3 : Bytes → FileHash} {localPath : LocalPath} {c : Commit} {s : String}

theorem scanSkips_concat : scanSkips (q ++ [n]) = decide (n = osStr Folder.metadataName) := by
  simp [scanSkips]

theorem scanSkips_of_long (h : Folder.metadataName.length < n.length) :
    scanSkips (q ++ [n]) = false := by
  rw [scanSkips_concat, decide_eq_false_iff_not]
  rintro rfl
  simp [osStr] at h

/-- The folder's model skips the same files. -/
theorem scanSkips_join {path : RelPath} (hpath : path ≠ []) :
    scanSkips (root ++ path.map osName) = Folder.skipped path := by
  obtain ⟨d, n, rfl⟩ := RelPath.eq_append_of_ne_nil hpath
  have hinj : Function.Injective osStr := List.map_injective_iff.mpr fun a b h => by cases h; rfl
  rw [List.map_append, List.map_singleton, ← List.append_assoc, scanSkips_concat, Folder.skipped]
  simp [osName, hinj.eq_iff]

theorem scanSkips_temp {target : Target} (hne : (OsPath.join root target).names ≠ root) :
    scanSkips ((OsPath.join root target).withExtension tmpExtension).names = false := by
  rw [join_eq] at hne ⊢
  rcases List.eq_nil_or_concat (target.path.map osName) with hq | ⟨q, n, hq⟩
  · rw [hq] at hne
    exact absurd (List.append_nil root) hne
  · rw [hq, List.concat_eq_append, ← List.append_assoc, withExtension_concat]
    refine scanSkips_of_long ?_
    have htag : Folder.metadataName.length < (osStr tmpExtension).length := by decide
    rw [OsStr.withExtension, List.length_append, List.length_cons]
    omega

/-- A backup is never skipped. -/
theorem scanSkips_backup {place : List OsStr} (h : BackedUpTo blake3 t c p place) :
    scanSkips place = false := by
  obtain ⟨q, m, rfl⟩ := backedUp_last h
  refine scanSkips_of_long ?_
  have hlong := conflictSuffix_length c.ts (loserLabel c.winner) (blake3 c.data)
  have hname : Folder.metadataName.length = 11 := by decide
  rw [List.length_append, osStr, List.length_map]
  omega

/-! ### What is touched -/

/-- A file of a skipped name that can be read or made. -/
theorem namesSkipped_of (hroot : t.isDir root = true) (hjoin : SyncRoot.safeJoin t root s = .ok p)
    (hskips : scanSkips p.names = true)
    (h : (∃ data, t.read maxLinks [] p.steps = .ok (p.names, data)) ∨ Creatable t root p) :
    NamesSkipped t root s := by
  obtain ⟨target, hs, rfl, hlinks, -⟩ := (SyncRoot.safeJoin_ok_iff hroot).mp hjoin
  have hpath : target.path ≠ [] := by
    intro hnil
    have hp : OsPath.join root target = ⟨root, target.asDir⟩ := by
      rw [join_eq, hnil, List.map_nil, List.append_nil]
    rcases h with ⟨data, hread⟩ | hcreatable
    · rw [join_eq] at hread
      obtain ⟨-, hne, -, -⟩ := read_place hroot hlinks hread
      exact hne (by rw [hnil, List.map_nil])
    · have hmissing := hcreatable.missing
      rw [hp] at hmissing
      rw [Tree.isDir, hmissing] at hroot
      cases hroot
  exact ⟨target, hs, hjoin, (scanSkips_join hpath).symm.trans hskips, h⟩

/-- **A commit spares the files that the scan skips**, unless it is to one of
them or through a link to one. -/
theorem commit_spares (hopen : openRoot t localPath = .ok root) (hroot : t.isDir root = true)
    (hleads : c.path ≠ "metadata.db" → c.path.utf8ByteSize ≤ maxPathLen →
      ¬NamesSkipped t root c.path ∧ ¬TempLeadsToSkipped t root c.path) {a : Access}
    (ha : a ∈ (commitReceived blake3 root localPath c ⟨t, []⟩).2.accesses) :
    ¬a.TouchesSkipped root := by
  rintro ⟨r, hr, hinside, hskips⟩
  rcases (commit_accesses hopen hroot).mem ha with ha | ⟨hmeta, hlong, p, hjoin, haccess⟩
  · cases ha
  · obtain ⟨hnames, htemp⟩ := hleads hmeta hlong
    obtain ⟨target, -, hp, -, -⟩ := (SyncRoot.safeJoin_ok_iff hroot).mp hjoin
    have htarget : scanSkips p.names = true → (∃ data, t.read maxLinks [] p.steps =
        .ok (p.names, data)) ∨ Creatable t root p → False :=
      fun hskips h => hnames (namesSkipped_of hroot hjoin hskips h)
    have hbackup : ∀ place, BackedUpTo blake3 t c p place → scanSkips place ≠ true := by
      intro place hmoved
      rw [scanSkips_backup hmoved]
      decide
    have hname : p.names ≠ root → scanSkips (p.withExtension tmpExtension).names ≠ true := by
      intro hne
      rw [hp] at hne ⊢
      rw [scanSkips_temp hne]
      decide
    cases haccess with
    | made q => cases hr
    | read hread =>
      rw [List.mem_singleton.mp hr] at hskips
      exact htarget hskips (Or.inl ⟨_, hread⟩)
    | backedUp hmoved =>
      simp only [Access.files, Access.places, List.mem_cons, List.not_mem_nil, or_false] at hr
      rcases hr with rfl | rfl
      · obtain ⟨data, hread, -⟩ := hmoved
        exact htarget hskips (Or.inl ⟨data, hread⟩)
      · exact hbackup _ hmoved hskips
    | wrote hfile hwritten =>
      rw [List.mem_singleton.mp hr] at hinside hskips
      obtain ⟨-, hlink⟩ := temp_isLink hroot hjoin hfile hwritten
      refine htemp ⟨p, _, hjoin, hfile, hlink fun heq => ?_, hwritten, hinside, hskips⟩
      rw [heq] at hskips
      refine hname (fun hroot' => ?_) hskips
      have hcanon : SyncRoot.canonicalize t p = .ok root := by
        obtain ⟨names, asDir⟩ := p
        obtain rfl : names = root := hroot'
        exact canonicalize_root hroot
      rw [hfile root hcanon] at hroot
      cases hroot
    | wroteFresh hne =>
      rw [List.mem_singleton.mp hr] at hskips
      exact hname hne hskips
    | wroteMoved hmoved hplace =>
      rw [List.mem_singleton.mp hr] at hskips
      rcases hplace with rfl | rfl
      · obtain ⟨data, hread, -⟩ := hmoved
        exact htarget hskips (Or.inl ⟨data, hread⟩)
      · exact hbackup _ hmoved hskips
    | installed hne h =>
      simp only [Access.files, Access.places, List.mem_cons, List.not_mem_nil, or_false] at hr
      rcases hr with rfl | rfl
      · exact hname hne hskips
      · exact htarget hskips h
    | removed hne =>
      rw [List.mem_singleton.mp hr] at hskips
      exact hname hne hskips

/-- What can be written beside its target is renamed to it. -/
theorem install_renamed {data : Bytes} {place : List OsStr} (hdir : fs.disk.isDir q = true)
    (hleaf : fs.disk.isDir (q ++ [n]) = false) (hwritten : WrittenAt fs.disk ⟨q ++ [n], false⟩ place) :
    .renamed (q ++ [OsStr.withExtension n tmpExtension]) (q ++ [n]) ∈
      (installReceived ⟨q ++ [n], false⟩ data fs).2.accesses := by
  obtain ⟨hwalk, hplaceLeaf⟩ := hwritten
  rw [withExtension_concat] at hwalk
  have hset := Tree.node_set (x := some (.file data))
    (Tree.walk_parent fs.disk.isDir_top hwalk) hplaceLeaf
  have hdir' : (fs.disk.set place (some (.file data))).isDir q = true := by
    have hne : q ≠ place := by
      rintro rfl
      rw [hdir] at hplaceLeaf
      cases hplaceLeaf
    rw [Tree.isDir, hset, if_neg hne]
    exact hdir
  have hentry : ∀ m, (fs.disk.set place (some (.file data))).walk false maxLinks []
      (OsPath.mk (q ++ [m]) false).steps = .ok (q ++ [m]) := by
    intro m
    rw [steps_plain]
    exact Tree.walk_entry hdir' fun h => (by cases h)
  -- the temporary name is the new file, or the link that leads to it
  have htemp : (fs.disk.set place (some (.file data))).node
        (q ++ [OsStr.withExtension n tmpExtension]) ≠ none ∧
      (fs.disk.set place (some (.file data))).isDir (q ++ [OsStr.withExtension n tmpExtension]) =
        false := by
    rw [Tree.isDir, hset]
    by_cases hname : q ++ [OsStr.withExtension n tmpExtension] = place
    · rw [if_pos hname]
      exact ⟨by simp, rfl⟩
    · rw [if_neg hname]
      have hlink : fs.disk.isLink (q ++ [OsStr.withExtension n tmpExtension]) = true := by
        by_contra hlink
        rw [Bool.not_eq_true] at hlink
        rw [steps_plain, Tree.walk_entry hdir fun _ => hlink] at hwalk
        cases hwalk
        exact hname rfl
      obtain ⟨absolute, steps, hnode⟩ := Tree.isLink_iff.mp hlink
      rw [hnode]
      exact ⟨by simp, rfl⟩
  have hleaf' : (fs.disk.set place (some (.file data))).isDir (q ++ [n]) = false := by
    rw [Tree.isDir, hset]
    by_cases hn : q ++ [n] = place
    · rw [if_pos hn]
    · rw [if_neg hn]
      exact hleaf
  have hwrite : fs.write (OsPath.mk (q ++ [OsStr.withExtension n tmpExtension]) false) data =
      .ok ⟨fs.disk.set place (some (.file data)), fs.accesses ++ [.wrote place]⟩ := by
    unfold Fs.write Tree.write
    rw [hwalk]
    simp [hplaceLeaf]
  unfold installReceived
  rw [withExtension_concat]
  dsimp only
  rw [hwrite]
  dsimp only
  rw [rename_of_walks (hentry _) htemp.1 htemp.2 (hentry n) hleaf']
  simp

/-- A file that is not there and can be made is made by a commit. -/
theorem commit_creates (hopen : openRoot t localPath = .ok root) (hroot : t.isDir root = true)
    (hmeta : s ≠ "metadata.db") (hlong : s.utf8ByteSize ≤ maxPathLen)
    (hjoin : SyncRoot.safeJoin t root s = .ok p) (h : Creatable t root p) :
    ∃ c : Commit, c.path = s ∧ .renamed (p.withExtension tmpExtension).names p.names ∈
      (commitReceived blake3 root localPath c ⟨t, []⟩).2.accesses := by
  obtain ⟨target, hs, hp, hlinks, -⟩ := (SyncRoot.safeJoin_ok_iff hroot).mp hjoin
  obtain ⟨hasDir, hmissing, habove, htemp⟩ := h
  rw [hp] at hasDir
  have has : target.asDir = false := hasDir
  rw [join_eq, has] at hp
  rw [has] at hlinks
  rcases List.eq_nil_or_concat (target.path.map osName) with hq | ⟨q, n, hq⟩
  · rw [hp, hq, List.append_nil] at hmissing
    rw [Tree.isDir, hmissing] at hroot
    cases hroot
  rw [List.concat_eq_append] at hq
  rw [hq, ← List.append_assoc] at hp
  rw [hq] at hlinks
  subst hp
  dsimp only at hmissing habove htemp
  rw [List.dropLast_concat] at habove htemp
  have hlen : q.length < (root ++ q).length + 1 := by
    rw [List.length_append]
    omega
  have hmakeParent : makeParent ⟨root ++ q ++ [n], false⟩ ⟨t, []⟩ =
      createDirAll ((root ++ q).length + 1) ⟨root ++ q, false⟩ ⟨t, []⟩ := by
    rw [makeParent, parent_concat]
  have hroot₀ : (Fs.mk t []).disk.isDir root = true := hroot
  obtain ⟨hgrown, hmade⟩ := createDirAll_spec hroot₀ (noLinks_concat.mp hlinks).1 hlen
  have hok := createDirAll_ok hroot₀ (noLinks_concat.mp hlinks).1
    (fun r hr => habove _ (List.prefix_append _ _) ((List.prefix_append_right_inj root).mpr hr)) hlen
  rw [← hmakeParent] at hgrown hmade hok
  generalize hmk : makeParent ⟨root ++ q ++ [n], false⟩ ⟨t, []⟩ = made at hgrown hmade hok
  obtain ⟨r, fs₁⟩ := made
  obtain rfl : r = .ok () := hok
  obtain ⟨hdir₁, hfresh⟩ := hmade rfl
  dsimp only at hgrown hdir₁ hfresh
  have hmissing₁ : fs₁.disk.node (root ++ q ++ [n]) = none := by
    rcases hfresh with rfl | hempty
    · exact hmissing
    · exact hempty n
  have hlinks₁ : NoLinks fs₁.disk root (q ++ [n]) false := hgrown.noLinks hlinks
  have hwritten₁ : ∃ place, WrittenAt fs₁.disk ⟨root ++ q ++ [n], false⟩ place := by
    rcases hfresh with rfl | hempty
    · exact htemp hdir₁
    · refine ⟨root ++ q ++ [OsStr.withExtension n tmpExtension], ?_, ?_⟩
      · rw [withExtension_concat, steps_plain]
        exact Tree.walk_entry hdir₁ fun _ => by rw [Tree.isLink, hempty]
      · rw [Tree.isDir, hempty]
  have hcanon₁ : ∀ d, SyncRoot.canonicalize fs₁.disk ⟨root ++ q ++ [n], false⟩ ≠ .ok d := by
    intro d hd
    have hplace : d = root ++ (q ++ [n]) := by
      rw [List.append_assoc] at hd
      exact canonicalize_lexical (hgrown.isDir hroot) hlinks₁ hd
    unfold SyncRoot.canonicalize Tree.canonicalize at hd
    split at hd
    · cases hd
    · split_ifs at hd with hsome
      cases hd
      rw [hplace, ← List.append_assoc, hmissing₁] at hsome
      cases hsome
  have hjoin₁ : SyncRoot.safeJoin fs₁.disk root s = .ok ⟨root ++ q ++ [n], false⟩ := by
    refine (SyncRoot.safeJoin_ok_iff (hgrown.isDir hroot)).mpr ⟨target, hs, ?_, ?_, fun d hd =>
      absurd hd (hcanon₁ d)⟩
    · rw [join_eq, hq, has, ← List.append_assoc]
    · rw [hq, has]
      exact hlinks₁
  obtain ⟨data, accesses, hbackup⟩ : ∃ data accesses, ∀ ts winner mtime,
      backupReceived blake3 localPath ⟨s, data, ts, winner, mtime⟩ fs₁ =
        (.ok false, ⟨fs₁.disk, accesses⟩) :=
    exists_unconflicted (openRoot_grown hgrown hopen) hjoin₁ fun d hd => absurd hd (hcanon₁ d)
  obtain ⟨place, hwritten⟩ := hwritten₁
  have hdir₂ : (Fs.mk fs₁.disk accesses).disk.isDir (root ++ q) = true := hdir₁
  have hleaf₁ : fs₁.disk.isDir (root ++ q ++ [n]) = false := by rw [Tree.isDir, hmissing₁]
  refine ⟨⟨s, data, 0, "remote", 0⟩, rfl, commit_installs (c := ⟨s, data, 0, "remote", 0⟩) hmeta hlong
    hjoin hmk (hbackup 0 "remote" 0) ?_⟩
  rw [withExtension_concat]
  exact install_renamed hdir₂ hleaf₁ hwritten

/-- A file that can be read is served. -/
theorem serve_reads (hmeta : s ≠ "metadata.db") (hlong : s.utf8ByteSize ≤ maxPathLen)
    (hjoin : SyncRoot.safeJoin fs.disk root s = .ok p) {file : List OsStr × Bytes}
    (hread : fs.disk.read maxLinks [] p.steps = .ok file) :
    .read file.1 ∈ (serveRequested root s fs).2.accesses := by
  unfold serveRequested
  rw [if_neg (not_or.mpr ⟨hmeta, not_lt.mpr hlong⟩), hjoin]
  dsimp only
  unfold Fs.read
  rw [hread]
  simp

end

/-- **The files that the scan skips are spared**, if and only if the string does
not name one and its temporary name leads to none. -/
theorem metadata_spared_iff (blake3 : Bytes → FileHash) (t : Disk) (root : List OsStr)
    (localPath : LocalPath) (hopen : openRoot t localPath = .ok root) (s : String) :
    Spared blake3 t root localPath s ↔ (s ≠ "metadata.db" → s.utf8ByteSize ≤ maxPathLen →
      ¬NamesSkipped t root s ∧ ¬TempLeadsToSkipped t root s) := by
  have hroot : t.isDir root = true := isDir_of_openRoot hopen
  constructor
  · intro h hmeta hlong
    refine ⟨fun hnames => ?_, fun htemp => ?_⟩
    · obtain ⟨target, -, hjoin, hskips, hthere⟩ := hnames
      have hpath : target.path ≠ [] := by
        intro hnil
        rw [hnil] at hskips
        cases hskips
      have hplace : root <+: (OsPath.join root target).names ∧
          scanSkips (OsPath.join root target).names = true :=
        ⟨List.prefix_append _ _, (scanSkips_join hpath).trans hskips⟩
      rcases hthere with ⟨data, hread⟩ | hcreatable
      · have hjoin₀ : SyncRoot.safeJoin (Fs.mk t []).disk root s = .ok (.join root target) := hjoin
        exact h.serve _ (serve_reads hmeta hlong hjoin₀ hread) ⟨_, List.mem_singleton_self _, hplace⟩
      · obtain ⟨c, hc, hrenamed⟩ := commit_creates hopen hroot hmeta hlong hjoin hcreatable
        exact h.commit c hc _ hrenamed ⟨_, List.mem_cons_of_mem _ (List.mem_singleton_self _), hplace⟩
    · obtain ⟨p, place, hjoin, hfile, hlink, hwritten, hplace⟩ := htemp
      obtain ⟨c, hc, hwrote⟩ := temp_written hopen hroot hmeta hlong hjoin hfile hlink hwritten
      exact h.commit c hc _ hwrote ⟨place, List.mem_singleton_self _, hplace⟩
  · intro hleads
    refine ⟨?_, fun a ha => ?_⟩
    · rintro c rfl a ha
      exact commit_spares hopen hroot hleads ha
    · rintro ⟨r, hr, -, hskips⟩
      have hroot₀ : (Fs.mk t []).disk.isDir root = true := hroot
      rcases (serve_accesses hroot₀ s).mem ha with ha | ⟨hmeta, hlong, p, data, hjoin, hread, rfl⟩
      · cases ha
      · rw [List.mem_singleton.mp hr] at hskips
        exact (hleads hmeta hlong).1 (namesSkipped_of hroot hjoin hskips (Or.inl ⟨data, hread⟩))

/-- A folder with a database in one of its directories. -/
def databaseDisk : Disk :=
  ((Tree.empty.set [word "srv"] (some .dir)).set [word "srv", word "sub"] (some .dir)).set
    [word "srv", word "sub", word "metadata.db"] (some (.file [100]))

theorem metadata_spared_iff_plain : Spared sampleBlake3 databaseDisk [word "srv"] srvPath "sub/a" := by
  have hopen : openRoot databaseDisk srvPath = .ok [word "srv"] := by rfl
  have hs : FerriSync.safeJoin "sub/a" = .ok ⟨[⟨['s', 'u', 'b'], by decide, by decide, by decide,
      by decide, by decide⟩, ⟨['a'], by decide, by decide, by decide, by decide, by decide⟩], false⟩ := by
    rfl
  refine (metadata_spared_iff sampleBlake3 databaseDisk _ srvPath hopen "sub/a").mpr fun _ _ =>
    ⟨?_, ?_⟩
  · rintro ⟨target, htarget, -, hskips, -⟩
    rw [hs] at htarget
    cases htarget
    revert hskips
    decide
  · rintro ⟨p, place, hjoin, -, hlink, -⟩
    obtain ⟨target, htarget, rfl, -, -⟩ := (SyncRoot.safeJoin_ok_iff (by decide +kernel)).mp hjoin
    rw [hs] at htarget
    cases htarget
    revert hlink
    decide +kernel

/-- **The database is touched.** Asked for by its path the database in the
directory is read, and the one at the top is created under a path with a dot. -/
theorem metadata_touched : openRoot databaseDisk srvPath = .ok [word "srv"] ∧
    ¬Spared sampleBlake3 databaseDisk [word "srv"] srvPath "sub/metadata.db" ∧
    ¬Spared sampleBlake3 databaseDisk [word "srv"] srvPath "./metadata.db" := by
  refine ⟨by rfl, fun h => ?_, fun h => ?_⟩
  · have hread : .read [word "srv", word "sub", word "metadata.db"] ∈
        (serveRequested [word "srv"] "sub/metadata.db" ⟨databaseDisk, []⟩).2.accesses := by
      decide +kernel
    exact h.serve _ hread ⟨_, List.mem_singleton_self _, by decide +kernel, by decide +kernel⟩
  · have hrenamed : .renamed [word "srv", word "metadata..ferrisync-tmp"]
          [word "srv", word "metadata.db"] ∈ (commitReceived sampleBlake3 [word "srv"] srvPath
        ⟨"./metadata.db", [120], 0, "remote", 0⟩ ⟨databaseDisk, []⟩).2.accesses := by
      decide +kernel
    exact h.commit _ rfl _ hrenamed
      ⟨_, List.mem_cons_of_mem _ (List.mem_singleton_self _), by decide +kernel, by decide +kernel⟩

end FerriSync
