/-
# What a peer's path touches

What a session does for a path string from its peer is inside the root
(`paths_confined_iff`) but for three kinds of string. The look for links misses
the last component of a string that ends in a slash. The temporary name is not
looked at: where it is a link out of the root, the file is written there. And a
root whose path is not UTF-8 is displayed as another, to which the backup is
moved (not if it is UTF-8: `not_backupLeadsOut`).

Key definitions: `Confined`, `NamesLink`, `TempLeadsOut`, `BackupLeadsOut`.
Key theorems: `commit_inside`, `serve_inside`, `paths_confined_iff`.
-/
import FerriSync.Footprint

namespace FerriSync

open FileTree

/-! ### What should hold of a path, and when it does not -/

section

variable (blake3 : Bytes → FileHash) (t : Disk) (root : List OsStr) (localPath : LocalPath)
  (s : String)

/-- What the string is joined to is the root or below it, and no link is on the
way; and whatever is received or requested under it touches the root only. -/
structure Confined : Prop where
  lexical : ∀ p, SyncRoot.safeJoin t root s = .ok p →
    ∃ q, p.names = root ++ q ∧ osStr ['.', '.'] ∉ q
  noLink : ∀ p, SyncRoot.safeJoin t root s = .ok p → ∀ r, r ≠ [] → root ++ r <+: p.names →
    t.isLink (root ++ r) = false
  commit : ∀ c : Commit, c.path = s →
    ∀ a ∈ (commitReceived blake3 root localPath c ⟨t, []⟩).2.accesses, a.Inside root
  serve : ∀ a ∈ (serveRequested root s ⟨t, []⟩).2.accesses, a.Inside root

/-- The string names a link with a slash after it, and the link leads to no
directory outside the root. -/
def NamesLink : Prop :=
  ∃ target, FerriSync.safeJoin s = .ok target ∧ target.asDir = true ∧ target.path ≠ [] ∧
    t.isLink (root ++ target.path.map osName) = true ∧
    ∀ d, SyncRoot.canonicalize t (.join root target) = .ok d → root <+: d

/-- The string names no directory that exists, and its temporary name is a link
to a place outside the root. -/
def TempLeadsOut : Prop :=
  ∃ p place, SyncRoot.safeJoin t root s = .ok p ∧
    (∀ d, SyncRoot.canonicalize t p = .ok d → t.isDir d = false) ∧
    t.isLink (p.withExtension tmpExtension).names = true ∧
    t.walk true maxLinks [] (p.withExtension tmpExtension).steps = .ok place ∧
    t.isDir place = false ∧ ¬root <+: place

/-- The string names a file, and the path that is displayed as its backup's leads
to a place outside the root. -/
def BackupLeadsOut : Prop :=
  ∃ p file place, SyncRoot.safeJoin t root s = .ok p ∧ t.read maxLinks [] p.steps = .ok file ∧
    ∃ c : Commit, c.data ≠ file.2 ∧
      t.walk false maxLinks []
        (p.backup (conflictSuffix c.ts (loserLabel c.winner) (blake3 c.data))).steps = .ok place ∧
      t.isDir place = false ∧ ¬root <+: place

end

/-! ### What stays inside -/

section

variable {root q q' : List OsStr} {n x : OsStr} {asDir : Bool} {fs fs' : Fs} {p : OsPath}
variable {blake3 : Bytes → FileHash} {localPath : LocalPath} {c : Commit}

/-- Where the temporary name is no link out of the root, the file is written
inside. -/
theorem temp_inside {t : Disk} {s : String} (hjoin : SyncRoot.safeJoin t root s = .ok p)
    (hroot : t.isDir root = true) (htemp : ¬TempLeadsOut t root s)
    (hfile : ∀ d, SyncRoot.canonicalize t p = .ok d → t.isDir d = false) {place : List OsStr}
    (hwritten : WrittenAt t p place) : root <+: place := by
  by_contra hout
  obtain ⟨hname, hlink⟩ := temp_isLink hroot hjoin hfile hwritten
  refine htemp ⟨p, place, hjoin, hfile, hlink fun heq => hout (heq ▸ hname), hwritten.1, hwritten.2, hout⟩

/-- **A commit stays inside the root**, unless its backup or its temporary file
leads out. -/
theorem commit_inside (hopen : openRoot fs.disk localPath = .ok root)
    (hroot : fs.disk.isDir root = true)
    (hleads : c.path ≠ "metadata.db" → c.path.utf8ByteSize ≤ maxPathLen →
      ¬TempLeadsOut fs.disk root c.path ∧ ¬BackupLeadsOut blake3 fs.disk root c.path) :
    fs.Since (Access.Inside root) (commitReceived blake3 root localPath c fs).2 := by
  refine (commit_accesses hopen hroot).imp fun a ⟨hmeta, hlong, p, hjoin, haccess⟩ => ?_
  obtain ⟨htemp, hbackup⟩ := hleads hmeta hlong
  obtain ⟨target, -, hp, -, -⟩ := (SyncRoot.safeJoin_ok_iff hroot).mp hjoin
  have htarget : root <+: p.names := hp ▸ List.prefix_append root _
  have hbackedUp : ∀ place, BackedUpTo blake3 fs.disk c p place → root <+: place := by
    rintro place ⟨data, hread, hother, hwalk, hleaf⟩
    by_contra hout
    exact hbackup ⟨p, _, place, hjoin, hread, c, Ne.symm hother, hwalk, hleaf, hout⟩
  have hname : p.names ≠ root → root <+: (p.withExtension tmpExtension).names := by
    rw [hp]
    exact tempName_inside
  intro r hr
  cases haccess with
  | made q =>
    rw [List.mem_singleton.mp hr]
    exact List.prefix_append _ _
  | read _ => rwa [List.mem_singleton.mp hr]
  | backedUp hmoved =>
    simp only [Access.places, List.mem_cons, List.not_mem_nil, or_false] at hr
    rcases hr with rfl | rfl
    · exact htarget
    · exact hbackedUp _ hmoved
  | wrote hfile hwritten =>
    rw [List.mem_singleton.mp hr]
    exact temp_inside hjoin hroot htemp hfile hwritten
  | wroteFresh hne =>
    rw [List.mem_singleton.mp hr]
    exact hname hne
  | wroteMoved hmoved hplace =>
    rw [List.mem_singleton.mp hr]
    rcases hplace with rfl | rfl
    · exact htarget
    · exact hbackedUp _ hmoved
  | installed hne _ =>
    simp only [Access.places, List.mem_cons, List.not_mem_nil, or_false] at hr
    rcases hr with rfl | rfl
    · exact hname hne
    · exact htarget
  | removed hne =>
    rw [List.mem_singleton.mp hr]
    exact hname hne

/-- **Serving a path stays inside the root.** -/
theorem serve_inside (hroot : fs.disk.isDir root = true) (s : String) :
    fs.Since (Access.Inside root) (serveRequested root s fs).2 := by
  refine (serve_accesses hroot s).imp ?_
  rintro a ⟨-, -, p, data, hjoin, -, rfl⟩
  obtain ⟨target, -, rfl, -, -⟩ := (SyncRoot.safeJoin_ok_iff hroot).mp hjoin
  intro r hr
  rw [List.mem_singleton.mp hr]
  exact List.prefix_append _ _

theorem display_osStr (cs : List Char) : OsStr.display (osStr cs) = osStr cs := by
  unfold OsStr.display osStr
  rw [List.map_map]
  rfl

/-- A root that is displayed as it is has no backup that leads out. -/
theorem not_backupLeadsOut {t : Disk} (hroot : t.isDir root = true)
    (hdisplay : root.map OsStr.display = root) (s : String) : ¬BackupLeadsOut blake3 t root s := by
  rintro ⟨p, file, place, hjoin, hread, c, -, hwalk, -, hout⟩
  obtain ⟨target, -, rfl, hlinks, -⟩ := (SyncRoot.safeJoin_ok_iff hroot).mp hjoin
  have hfile : target.asDir = false ∧ target.path.map osName ≠ [] ∧
      file.1 = root ++ target.path.map osName ∧
      t.node (root ++ target.path.map osName) = some (.file file.2) :=
    read_place hroot hlinks hread
  obtain ⟨-, hq, -, hnode⟩ := hfile
  have hnames : (target.path.map osName).map OsStr.display = target.path.map osName := by
    rw [List.map_map]
    exact List.map_congr_left fun n _ => display_osStr n.chars
  obtain ⟨q, n, hq⟩ := (List.eq_nil_or_concat (target.path.map osName)).resolve_left hq
  rw [hq, List.concat_eq_append] at hnames hnode
  rw [List.map_append] at hnames
  have hdir : t.isDir (root ++ q) = true := by
    rw [← List.append_assoc] at hnode
    exact Tree.isDir_concat (n := n) (by rw [hnode]; simp)
  have hq' : q.map OsStr.display = q := (List.append_inj' hnames rfl).1
  rw [join_eq, hq, List.concat_eq_append, ← List.append_assoc, OsPath.backup] at hwalk
  dsimp only at hwalk
  rw [List.getLast?_concat, List.dropLast_concat, List.map_append, hdisplay, hq'] at hwalk
  dsimp only at hwalk
  rw [steps_plain, Tree.walk_entry hdir fun h => (by cases h)] at hwalk
  cases hwalk
  exact hout (by rw [List.append_assoc]; exact List.prefix_append _ _)

/-! ### What leads out -/

/-- A temporary name that leads out is written to. -/
theorem temp_escapes {t : Disk} (hopen : openRoot t localPath = .ok root)
    (hroot : t.isDir root = true) {s : String} (hmeta : s ≠ "metadata.db")
    (hlong : s.utf8ByteSize ≤ maxPathLen) (h : TempLeadsOut t root s) :
    ∃ c : Commit, c.path = s ∧
      ∃ a ∈ (commitReceived blake3 root localPath c ⟨t, []⟩).2.accesses, ¬a.Inside root := by
  obtain ⟨p, place, hjoin, hfile, hlink, hwalk, hleaf, hout⟩ := h
  obtain ⟨c, hc, hwrote⟩ : ∃ c : Commit, c.path = s ∧
      .wrote place ∈ (commitReceived blake3 root localPath c ⟨t, []⟩).2.accesses :=
    temp_written hopen hroot hmeta hlong hjoin hfile hlink ⟨hwalk, hleaf⟩
  exact ⟨c, hc, .wrote place, hwrote, fun hinside => hout (hinside place (by simp [Access.places]))⟩

/-- A backup that leads out is moved there. -/
theorem backup_escapes {t : Disk} (hopen : openRoot t localPath = .ok root)
    (hroot : t.isDir root = true) {s : String} (hmeta : s ≠ "metadata.db")
    (hlong : s.utf8ByteSize ≤ maxPathLen) (h : BackupLeadsOut blake3 t root s) :
    ∃ c : Commit, c.path = s ∧
      ∃ a ∈ (commitReceived blake3 root localPath c ⟨t, []⟩).2.accesses, ¬a.Inside root := by
  obtain ⟨p, file, place, hjoin, hread, c, hdata, hwalk, hleaf, hout⟩ := h
  obtain ⟨target, -, hp, hlinks, -⟩ := (SyncRoot.safeJoin_ok_iff hroot).mp hjoin
  rw [join_eq] at hp
  have hfile : target.asDir = false ∧ target.path.map osName ≠ [] ∧
      file.1 = root ++ target.path.map osName ∧
      t.node (root ++ target.path.map osName) = some (.file file.2) := by
    rw [hp] at hread
    exact read_place hroot hlinks hread
  obtain ⟨has, hq, -, hnode⟩ := hfile
  obtain ⟨q, n, hq⟩ := (List.eq_nil_or_concat (target.path.map osName)).resolve_left hq
  rw [hq, List.concat_eq_append, ← List.append_assoc] at hp hnode
  rw [hp] at hjoin hread hwalk
  have hdir : t.isDir (root ++ q) = true := Tree.isDir_concat (n := n) (by rw [hnode]; simp)
  have hexists : (Fs.mk t []).exists_ ⟨root ++ q ++ [n], target.asDir⟩ = true := exists_of_read hread
  have hleaf' : t.isDir (root ++ q ++ [n]) = false := by rw [Tree.isDir, hnode]
  have hsource : t.walk false maxLinks [] (OsPath.mk (root ++ q ++ [n]) target.asDir).steps =
      .ok (root ++ q ++ [n]) := by
    rw [has, steps_plain]
    exact Tree.walk_entry hdir fun h => (by cases h)
  have hbackup : backupReceived blake3 localPath { c with path := s } ⟨t, []⟩ =
      (.ok true, ⟨(t.set (root ++ q ++ [n]) none).set place (t.node (root ++ q ++ [n])),
        [.read file.1, .renamed (root ++ q ++ [n]) place]⟩) := by
    have hrename : (Fs.mk t [.read file.1]).rename ⟨root ++ q ++ [n], target.asDir⟩
        (OsPath.backup ⟨root ++ q ++ [n], target.asDir⟩
          (conflictSuffix c.ts (loserLabel c.winner) (blake3 c.data))) = .ok _ :=
      rename_of_walks hsource (by rw [hnode]; simp) hleaf' hwalk hleaf
    unfold backupReceived
    dsimp only
    rw [hopen]
    dsimp only
    rw [hjoin]
    dsimp only
    rw [hexists, Bool.not_true, if_neg (by decide)]
    unfold Fs.read
    rw [hread]
    dsimp only
    rw [if_neg (Ne.symm hdata), List.nil_append, hrename]
    rfl
  refine ⟨{ c with path := s }, rfl, .renamed (root ++ q ++ [n]) place,
    commit_installs (c := { c with path := s }) hmeta hlong hjoin (makeParent_of_isDir hdir) hbackup
      (install_accesses (by simp)), ?_⟩
  exact fun hinside => hout (hinside place (by simp [Access.places]))

end

/-- **What a peer's path touches is inside the root**, if and only if the string
does not name a link by a path that ends in a slash, and neither its temporary
name nor its backup leads out. -/
theorem paths_confined_iff (blake3 : Bytes → FileHash) (t : Disk) (root : List OsStr)
    (localPath : LocalPath) (hopen : openRoot t localPath = .ok root) (s : String) :
    Confined blake3 t root localPath s ↔ ¬NamesLink t root s ∧
      (s ≠ "metadata.db" → s.utf8ByteSize ≤ maxPathLen →
        ¬TempLeadsOut t root s ∧ ¬BackupLeadsOut blake3 t root s) := by
  have hroot : t.isDir root = true := isDir_of_openRoot hopen
  constructor
  · intro h
    refine ⟨fun ⟨target, hs, has, hpath, hlink, hinside⟩ => ?_, fun hmeta hlong => ⟨fun htemp => ?_,
      fun hbackup => ?_⟩⟩
    · have hjoin : SyncRoot.safeJoin t root s = .ok (.join root target) := by
        refine (SyncRoot.safeJoin_ok_iff hroot).mpr ⟨target, hs, rfl, fun r hr hrq hfull => ?_, hinside⟩
        obtain ⟨rest, hrest⟩ := hrq
        have hne : rest ≠ [] := by
          rintro rfl
          rw [List.append_nil] at hrest
          rw [hfull hrest] at has
          cases has
        -- what stands above the link is a directory
        refine Tree.isLink_of_isDir (Tree.isDir_of_append hne ?_)
        rw [List.append_assoc, hrest]
        obtain ⟨absolute, steps, hnode⟩ := Tree.isLink_iff.mp hlink
        rw [hnode]
        simp
      have hnoLink := h.noLink _ hjoin (target.path.map osName) (by simpa using hpath) List.prefix_rfl
      rw [hlink] at hnoLink
      cases hnoLink
    · obtain ⟨c, rfl, a, ha, hout⟩ := temp_escapes hopen hroot hmeta hlong htemp
      exact hout (h.commit c rfl a ha)
    · obtain ⟨c, rfl, a, ha, hout⟩ := backup_escapes hopen hroot hmeta hlong hbackup
      exact hout (h.commit c rfl a ha)
  · rintro ⟨hlink, hleads⟩
    have hroot₀ : (Fs.mk t []).disk.isDir root = true := hroot
    refine ⟨fun p hjoin => ?_, fun p hjoin r hr hrp => ?_, fun c hc a ha => ?_, fun a ha =>
      ((serve_inside hroot₀ s).mem ha).resolve_left List.not_mem_nil⟩
    · obtain ⟨target, -, rfl, -, -⟩ := (SyncRoot.safeJoin_ok_iff hroot).mp hjoin
      refine ⟨target.path.map osName, rfl, fun hmem => ?_⟩
      obtain ⟨n, -, hn⟩ := List.mem_map.mp hmem
      have hinj : Function.Injective OsChar.char := fun a b h => by cases h; rfl
      exact n.not_dotdot (List.map_injective_iff.mpr hinj hn)
    · obtain ⟨target, hs, rfl, hlinks, hinside⟩ := (SyncRoot.safeJoin_ok_iff hroot).mp hjoin
      have hrq : r <+: target.path.map osName := (List.prefix_append_right_inj root).mp hrp
      by_contra hnode
      rw [Bool.not_eq_false] at hnode
      have hfull : ¬(r = target.path.map osName → target.asDir = false) := by
        intro hfull
        rw [hlinks r hr hrq hfull] at hnode
        cases hnode
      obtain ⟨rfl, has⟩ := Classical.not_imp.mp hfull
      exact hlink ⟨target, hs, by simpa using has, by simpa using hr, hnode, hinside⟩
    · subst hc
      have hopen₀ : openRoot (Fs.mk t []).disk localPath = .ok root := hopen
      exact ((commit_inside hopen₀ hroot₀ hleads).mem ha).resolve_left List.not_mem_nil

def word (s : String) : OsStr := osStr s.toList

/-- A folder with a link to one of its directories, and a link out of it that is
named as a temporary file. -/
def linkedDisk : Disk :=
  ((((((Tree.empty.set [word "srv"] (some .dir)).set [word "etc"] (some .dir)).set
    [word "etc", word "passwd"] (some (.file [114]))).set [word "srv", word "d"] (some .dir)).set
    [word "srv", word "l"] (some (.link false [.name (word "d")]))).set
    [word "srv", word "a..ferrisync-tmp"]
      (some (.link true [.name (word "etc"), .name (word "passwd")])))

def srvPath : LocalPath := ⟨[], [.name (word "srv")]⟩

theorem paths_confined_iff_nested : Confined sampleBlake3 linkedDisk [word "srv"] srvPath "d/b" := by
  have hopen : openRoot linkedDisk srvPath = .ok [word "srv"] := by rfl
  have hs : FerriSync.safeJoin "d/b" = .ok ⟨[⟨['d'], by decide, by decide, by decide, by decide, by decide⟩,
      ⟨['b'], by decide, by decide, by decide, by decide, by decide⟩], false⟩ := by rfl
  refine (paths_confined_iff sampleBlake3 linkedDisk _ srvPath hopen "d/b").mpr ⟨?_, fun _ _ => ⟨?_, ?_⟩⟩
  · rintro ⟨target, htarget, has, -⟩
    rw [hs] at htarget
    cases htarget
    cases has
  · rintro ⟨p, place, hjoin, -, hlink, -⟩
    obtain ⟨target, htarget, rfl, -, -⟩ := (SyncRoot.safeJoin_ok_iff (by decide +kernel)).mp hjoin
    rw [hs] at htarget
    cases htarget
    revert hlink
    decide +kernel
  · exact not_backupLeadsOut (by decide +kernel) (by decide +kernel) "d/b"

/-- A folder whose name is not UTF-8, beside one that it is displayed as. -/
def shadowedDisk : Disk :=
  ((Tree.empty.set [[.malformed [0xff]]] (some .dir)).set [[.char (Char.ofNat 0xfffd)]] (some .dir)).set
    [[.malformed [0xff]], word "a"] (some (.file [114]))

/-- **Paths escape.** A slash hides a link in the folder; the file `a` is written
to `/etc/passwd`; and the backup of `a` is moved to the folder that has the
displayed name. -/
theorem paths_escape :
    (openRoot linkedDisk srvPath = .ok [word "srv"] ∧
      ¬Confined sampleBlake3 linkedDisk [word "srv"] srvPath "l/" ∧
      ¬Confined sampleBlake3 linkedDisk [word "srv"] srvPath "a") ∧
    openRoot shadowedDisk ⟨[], [.name [.malformed [0xff]]]⟩ = .ok [[.malformed [0xff]]] ∧
      ¬Confined sampleBlake3 shadowedDisk [[.malformed [0xff]]] ⟨[], [.name [.malformed [0xff]]]⟩
        "a" := by
  have hopen : openRoot linkedDisk srvPath = .ok [word "srv"] := by rfl
  have hopen' : openRoot shadowedDisk ⟨[], [.name [.malformed [0xff]]]⟩ =
      .ok [[.malformed [0xff]]] := by rfl
  refine ⟨⟨hopen, fun h => ?_, fun h => ?_⟩, hopen', fun h => ?_⟩
  · have hjoin : SyncRoot.safeJoin linkedDisk [word "srv"] "l/" =
        .ok ⟨[word "srv", word "l"], true⟩ := by rfl
    have hlink : linkedDisk.isLink [word "srv", word "l"] = true := by decide +kernel
    have hnoLink := h.noLink _ hjoin [word "l"] (by simp) List.prefix_rfl
    rw [List.singleton_append, hlink] at hnoLink
    cases hnoLink
  · have hwrote : .wrote [word "etc", word "passwd"] ∈ (commitReceived sampleBlake3 [word "srv"]
        srvPath ⟨"a", [120], 0, "remote", 0⟩ ⟨linkedDisk, []⟩).2.accesses := by decide +kernel
    have hinside := h.commit _ rfl _ hwrote _ (List.mem_singleton_self _)
    revert hinside
    decide +kernel
  · have hrenamed : ∃ a ∈ (commitReceived sampleBlake3 [[.malformed [0xff]]]
        ⟨[], [.name [.malformed [0xff]]]⟩ ⟨"a", [120], 0, "remote", 0⟩ ⟨shadowedDisk, []⟩).2.accesses,
        ∃ p ∈ a.places, ¬[[.malformed [0xff]]] <+: p := by decide +kernel
    obtain ⟨a, ha, p, hp, hout⟩ := hrenamed
    exact hout (h.commit _ rfl a ha p hp)

end FerriSync
