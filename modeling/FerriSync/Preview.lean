/-
# The preview of a conflict

`read_conflict_contents` (`api/mod.rs`) reads the two versions of a conflict as text.
A version of more than 512 KiB is cut off there, in the middle of a character if one
lies across the cut, and what is left is then no text: the version is reported as
missing and the conflict as not textual.

So the preview is faithful if and only if no cut goes through a character of a
version that is text (`preview_faithful_iff`).

Key definitions: `readConflictText`, `readConflictContents`, `Previewed`.
Key theorems: `readConflictText_eq`, `previewed_iff`, `preview_faithful_iff`.
-/
import FerriSync.Conflicts
import FerriSync.Lib.Utf8

namespace FerriSync

open Utf8

/-- The two versions of a conflict, for the in-app compare view. -/
structure ConflictContents where
  winner : List Char
  loser : List Char
  winnerTruncated : Bool
  loserTruncated : Bool
  /-- False when either version is not valid UTF-8 text. -/
  textual : Bool
deriving DecidableEq

/-- Cap a single conflict-version read. -/
def conflictReadLimit : ℕ := 512 * 1024

/-- The text of a version, capped, and whether it was. -/
def readConflictText (f : Folder) (t : Target) : Option (List Char × Bool) :=
  if !f.targetExists t then none
  else match f.read t with
    | .error _ => none
    | .ok bytes =>
      let truncated := decide (conflictReadLimit < bytes.length)
      let slice := if truncated then bytes.take conflictReadLimit else bytes
      (decode slice).map fun text => (text, truncated)

/-- Read both versions of a conflict; `roots` are the folders that can be opened. -/
def readConflictContents (db : Database) (roots : String → Option Folder) (folderId : ℕ)
    (winnerPath loserPath : String) : Except String ConflictContents :=
  match db.listSyncFolders.find? fun row => decide (row.id = folderId) with
  | none => .error s!"sync folder {folderId} not found"
  | some row =>
    match roots row.localPath with
    | none => .error s!"sync folder does not exist: {row.localPath}"
    | some f =>
      match safeJoin winnerPath with
      | .error e => .error e
      | .ok winnerAbs =>
        match safeJoin loserPath with
        | .error e => .error e
        | .ok loserAbs =>
          match readConflictText f winnerAbs, readConflictText f loserAbs with
          | some (winnerText, winnerTruncated), some (loserText, loserTruncated) =>
            .ok ⟨winnerText, loserText, winnerTruncated, loserTruncated, true⟩
          | _, _ => .ok ⟨[], [], false, false, false⟩

/-! ### One version -/

/-- A text is previewed by as much of it as fits, and said to be cut off if there is
more. -/
def Previewed (f : Folder) (t : Target) (bytes : Bytes) : Prop :=
  ∀ text, decode bytes = some text → ∃ shown, LongestFit conflictReadLimit text shown ∧
    readConflictText f t = some (shown, decide (conflictReadLimit < bytes.length))

/-- No character lies across the cut. -/
def CutBetween (bytes : Bytes) : Prop :=
  ∀ byte, bytes[conflictReadLimit]? = some byte → byte.IsUTF8FirstByte

section

variable {f : Folder} {t : Target} {bytes : Bytes}

theorem CutBetween.of_length_le (h : bytes.length ≤ conflictReadLimit) : CutBetween bytes := by
  intro byte hbyte
  rw [List.getElem?_eq_none h] at hbyte
  cases hbyte

theorem readConflictText_eq (h : f.read t = .ok bytes) : readConflictText f t =
    (decode (bytes.take conflictReadLimit)).map
      fun text => (text, decide (conflictReadLimit < bytes.length)) := by
  obtain ⟨hfile, -, e, hentry, -⟩ := Folder.read_ok h
  have hexists : f.targetExists t = true := by simp [Folder.targetExists, hfile, hentry]
  unfold readConflictText
  rw [hexists, h]
  dsimp only
  by_cases hlong : conflictReadLimit < bytes.length
  · simp [hlong]
  · simp [hlong, List.take_of_length_le (Nat.le_of_not_lt hlong)]

/-- A text that is cut in two is one if the cut is between characters. -/
theorem decode_slice {text : List Char} (htext : decode bytes = some text) (h : CutBetween bytes) :
    ∃ shown, decode (bytes.take conflictReadLimit) = some shown := by
  obtain rfl := decode_eq_some.mp htext
  by_cases hlong : conflictReadLimit < (encode text).length
  · exact (decode_take_isSome_iff hlong).mpr (h _ (List.getElem?_eq_getElem hlong))
  · rw [List.take_of_length_le (Nat.le_of_not_lt hlong)]
    exact ⟨text, htext⟩

/-- **A version is previewed** unless a character lies across the cut. -/
theorem previewed_iff (h : f.read t = .ok bytes) :
    Previewed f t bytes ↔ ((decode bytes).isSome = true → CutBetween bytes) := by
  constructor
  · intro hprev hsome byte hbyte
    obtain ⟨text, htext⟩ := Option.isSome_iff_exists.mp hsome
    obtain ⟨shown, -, hread⟩ := hprev text htext
    rw [readConflictText_eq h] at hread
    obtain ⟨shown', hshown, -⟩ := Option.map_eq_some_iff.mp hread
    obtain rfl := decode_eq_some.mp htext
    obtain ⟨hlong, rfl⟩ := List.getElem?_eq_some_iff.mp hbyte
    exact (decode_take_isSome_iff hlong).mp ⟨shown', hshown⟩
  · intro hcut text htext
    have hsome : (decode bytes).isSome = true := Option.isSome_iff_exists.mpr ⟨text, htext⟩
    obtain ⟨shown, hshown⟩ := decode_slice htext (hcut hsome)
    refine ⟨shown, LongestFit.of_encode ?_, by rw [readConflictText_eq h, hshown]; rfl⟩
    rw [decode_eq_some.mp htext]
    exact decode_eq_some.mp hshown

end

/-! ### Both versions -/

/-- The two versions of a conflict are files of a folder that is registered and can be
opened. -/
structure Versions (db : Database) (roots : String → Option Folder) (folderId : ℕ)
    (winnerPath loserPath : String) (f : Folder) (winner loser : Target) (a b : Bytes) : Prop where
  folder : ((db.listSyncFolders.find? fun row => decide (row.id = folderId)).bind
    fun row => roots row.localPath) = some f
  winnerAbs : safeJoin winnerPath = .ok winner
  loserAbs : safeJoin loserPath = .ok loser
  winnerRead : f.read winner = .ok a
  loserRead : f.read loser = .ok b

section

variable {db : Database} {roots : String → Option Folder} {folderId : ℕ}
variable {winnerPath loserPath : String} {f : Folder} {winner loser : Target} {a b : Bytes}

theorem readConflictContents_eq (h : Versions db roots folderId winnerPath loserPath f winner loser a b) :
    ∃ contents, readConflictContents db roots folderId winnerPath loserPath = .ok contents ∧
      (contents.textual = true ↔ (readConflictText f winner).isSome = true ∧
        (readConflictText f loser).isSome = true) := by
  obtain ⟨row, hrow, hroot⟩ := Option.bind_eq_some_iff.mp h.folder
  unfold readConflictContents
  rw [hrow]
  dsimp only
  rw [hroot, h.winnerAbs, h.loserAbs]
  dsimp only
  cases readConflictText f winner with
  | none => exact ⟨_, rfl, by simp⟩
  | some x =>
    cases readConflictText f loser with
    | none => exact ⟨_, rfl, by simp⟩
    | some y => exact ⟨_, rfl, by simp⟩

/-- The preview of a conflict is faithful: each version that is text is previewed, and
only one that is none makes the conflict not textual. -/
structure PreviewFaithful (db : Database) (roots : String → Option Folder) (folderId : ℕ)
    (winnerPath loserPath : String) (f : Folder) (winner loser : Target) (a b : Bytes) : Prop where
  winnerShown : Previewed f winner a
  loserShown : Previewed f loser b
  textual : ∀ contents, readConflictContents db roots folderId winnerPath loserPath = .ok contents →
    contents.textual = false → decode a = none ∨ decode b = none

theorem isSome_of_previewed {t : Target} {bytes : Bytes} (h : Previewed f t bytes)
    (hsome : (decode bytes).isSome = true) : (readConflictText f t).isSome = true := by
  obtain ⟨text, htext⟩ := Option.isSome_iff_exists.mp hsome
  obtain ⟨shown, -, hread⟩ := h text htext
  rw [hread]
  rfl

/-- Versions that are previewed are reported as they are. -/
theorem faithful_of_previewed (h : Versions db roots folderId winnerPath loserPath f winner loser a b)
    (hwinner : Previewed f winner a) (hloser : Previewed f loser b) :
    PreviewFaithful db roots folderId winnerPath loserPath f winner loser a b := by
  refine ⟨hwinner, hloser, fun contents hcontents htextual => ?_⟩
  obtain ⟨contents', hcontents', htext⟩ := readConflictContents_eq h
  obtain rfl : contents' = contents := Except.ok.inj (hcontents'.symm.trans hcontents)
  by_contra hno
  obtain ⟨ha, hb⟩ := not_or.mp hno
  have hboth := htext.mpr ⟨isSome_of_previewed hwinner (Option.isSome_iff_ne_none.mpr ha),
    isSome_of_previewed hloser (Option.isSome_iff_ne_none.mpr hb)⟩
  rw [htextual] at hboth
  cases hboth

/-- **The preview is faithful** unless a character of a version lies across the cut. -/
theorem preview_faithful_iff (db : Database) (roots : String → Option Folder) (folderId : ℕ)
    (winnerPath loserPath : String) (f : Folder) (winner loser : Target) (a b : Bytes)
    (h : Versions db roots folderId winnerPath loserPath f winner loser a b) :
    PreviewFaithful db roots folderId winnerPath loserPath f winner loser a b ↔
      ((decode a).isSome = true → CutBetween a) ∧ ((decode b).isSome = true → CutBetween b) := by
  rw [← previewed_iff h.winnerRead, ← previewed_iff h.loserRead]
  constructor
  · intro hfaithful
    exact ⟨hfaithful.winnerShown, hfaithful.loserShown⟩
  · intro hprev
    exact faithful_of_previewed h hprev.1 hprev.2

end

/-- One folder. -/
def photosOnly : Database :=
  { Database.empty with
    devices := [⟨"phone", "Phone", none, none⟩]
    syncFolders := [⟨1, "/photos", none, "phone", "sync", none⟩]
    folderDevices := [⟨1, "phone", "sync", none, true⟩]
    folderSeq := 1 }

/-- The file `k`. -/
def otherName : FileName := ⟨['k'], by decide, by decide, by decide, by decide, by decide⟩

theorem versions_sample (a b : Bytes) : Versions photosOnly
    (fun _ => some (sampleFolder [(sampleName, a), (otherName, b)])) 1 "f" "k"
    (sampleFolder [(sampleName, a), (otherName, b)]) ⟨[sampleName], false⟩ ⟨[otherName], false⟩ a b where
  folder := by
    have hrows : photosOnly.listSyncFolders = [⟨1, "/photos", "phone", "sync"⟩] := by
      simp [Database.listSyncFolders, photosOnly]
    rw [hrows]
    rfl
  winnerAbs := by decide
  loserAbs := by decide
  winnerRead := rfl
  loserRead := rfl

theorem preview_faithful_iff_short : PreviewFaithful photosOnly
    (fun _ => some (sampleFolder [(sampleName, [97]), (otherName, [98])])) 1 "f" "k"
    (sampleFolder [(sampleName, [97]), (otherName, [98])]) ⟨[sampleName], false⟩ ⟨[otherName], false⟩
    [97] [98] :=
  (preview_faithful_iff _ _ _ _ _ _ _ _ _ _ (versions_sample [97] [98])).mpr
    ⟨fun _ => .of_length_le (by decide), fun _ => .of_length_le (by decide)⟩

/-- So many letters that the two bytes of `é` lie on both sides of the cut. -/
def clipped : Bytes := List.replicate (conflictReadLimit - 1) 97 ++ [195, 169]

theorem preview_clipped : ¬PreviewFaithful photosOnly
    (fun _ => some (sampleFolder [(sampleName, clipped), (otherName, [98])])) 1 "f" "k"
    (sampleFolder [(sampleName, clipped), (otherName, [98])]) ⟨[sampleName], false⟩ ⟨[otherName], false⟩
    clipped [98] := by
  intro h
  have hwinner := (previewed_iff (versions_sample clipped [98]).winnerRead).mp h.winnerShown
  have htext : encode (List.replicate (conflictReadLimit - 1) 'a' ++ ['é']) = clipped := by
    have hletters : ∀ n, encode (List.replicate n 'a') = List.replicate n 97 := by
      intro n
      induction n with
      | zero => rfl
      | succ n ih =>
        rw [List.replicate_succ, encode_cons, ih, List.replicate_succ]
        rfl
    rw [encode_append, hletters]
    rfl
  have hbyte : clipped[conflictReadLimit]? = some 169 := by
    have hlength : (List.replicate (conflictReadLimit - 1) (97 : UInt8)).length = conflictReadLimit - 1 :=
      List.length_replicate
    have hcut : conflictReadLimit - (conflictReadLimit - 1) = 1 := by decide
    rw [clipped, List.getElem?_append_right (by rw [hlength]; exact Nat.sub_le ..), hlength, hcut]
    rfl
  have hfirst := hwinner (by rw [← htext, decode_encode]; rfl) 169 hbyte
  revert hfirst
  decide

end FerriSync
