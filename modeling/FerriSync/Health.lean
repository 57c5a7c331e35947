/-
# One row for each folder

The projections that the command line, the REPL and the app show have a row for each pair
of a folder and a device (`health.rs`); `group_folders` merges those of one folder. The
merge starts from the first row of the folder, whatever it is: its path, the time and the
conflicts in it, and its device unless a peer needs attention, are taken over. A time that
only a later row of the own device has is lost. So the merged rows are aggregates, the same
for any order of the rows, exactly if it makes no difference which row comes first
(`group_folders_aggregates_iff`).

Key definitions: `FolderHealth`, `FolderStatus`, `Merge`, `groupFolders`,
`Aggregates`, `SameRow`, `Uniform`.
Key theorems: `Merge.addAll`, `group_folders_aggregates_iff`.
-/
import FerriSync.Lib.Keyed
import Mathlib.Data.Int.ConditionallyCompleteOrder
import Mathlib.Order.ConditionallyCompleteLattice.Basic
import Mathlib.Order.WithBot

namespace FerriSync

/-! ### The projections -/

/-- What a configured folder currently means for the user. -/
inductive FolderHealth
  | healthy
  | syncing
  | waiting
  | offline
  | error
  | conflict
  | notConfigured
deriving DecidableEq, Repr

/-- Higher = more attention-worthy. -/
def FolderHealth.priority : FolderHealth → ℕ
  | conflict => 6
  | error => 5
  | offline => 4
  | notConfigured => 3
  | waiting => 2
  | syncing => 1
  | healthy => 0

/-- One configured sync folder and a device, with the health derived from them. A folder
that was never synced comes before every time. -/
structure FolderStatus where
  id : ℕ
  path : String
  deviceId : String
  deviceName : Option String
  health : FolderHealth
  lastSync : WithBot ℤ
  conflicts : ℕ
deriving DecidableEq

def FolderStatus.peerLabel (f : FolderStatus) (ownDeviceId : String) : String :=
  if f.deviceId = ownDeviceId then "this device" else f.deviceName.getD f.deviceId

/-- The merged row so far, and what is known of its peers. -/
structure Merge where
  merged : FolderStatus
  labels : List String
  sawSelf : Bool
  worst : FolderHealth

namespace Merge

def start (first : FolderStatus) : Merge := ⟨first, [], false, .healthy⟩

/-- Rows of the own device are only served-folder bookkeeping. -/
def add (ownDeviceId : String) (m : Merge) (f : FolderStatus) : Merge :=
  if f.deviceId = ownDeviceId then { m with sawSelf := true }
  else
    let attention := m.worst.priority < f.health.priority
    { m with
      labels := Keyed.addFirst id m.labels (f.peerLabel ownDeviceId)
      worst := if attention then f.health else m.worst
      merged := { m.merged with
        deviceId := if attention then f.deviceId else m.merged.deviceId
        lastSync := max m.merged.lastSync f.lastSync
        conflicts := max m.merged.conflicts f.conflicts } }

/-- Without a real peer row the folder is presented from its self row. -/
def finish (m : Merge) (first : FolderStatus) : FolderStatus :=
  if m.labels = [] then { m.merged with
    health := first.health
    deviceId := first.deviceId
    lastSync := first.lastSync
    conflicts := first.conflicts
    deviceName := some (", ".intercalate ["this device"]) }
  else { m.merged with
    health := m.worst
    deviceName := some (", ".intercalate (if m.sawSelf then m.labels ++ ["this device"] else m.labels)) }

end Merge

/-- The row of the rows of one folder, which begin with `first`. -/
def mergeGroup (ownDeviceId : String) (first : FolderStatus) (rest : List FolderStatus) : FolderStatus :=
  ((first :: rest).foldl (Merge.add ownDeviceId) (Merge.start first)).finish first

/-- The rows of a folder, in the order in which they come. -/
def groupOf (folders : List FolderStatus) (folderId : ℕ) : List FolderStatus :=
  folders.filter fun f => decide (f.id = folderId)

/-- Collapse the rows onto one for each folder, the folders in the order of their first
rows. -/
def groupFolders (folders : List FolderStatus) (ownDeviceId : String) : List FolderStatus :=
  (Keyed.keepFirst id (folders.map (·.id))).filterMap fun folderId =>
    match groupOf folders folderId with
    | [] => none
    | first :: rest => some (mergeGroup ownDeviceId first rest)

/-! ### What it should give -/

section

variable (ownDeviceId : String)

def IsPeer (f : FolderStatus) : Prop := f.deviceId ≠ ownDeviceId

/-- The row is made of those of its folder: with a peer, the worst health of the peers, and
the latest time and most conflicts of all; without, what each of them has. -/
structure AggregatesGroup (group : List FolderStatus) (r : FolderStatus) : Prop where
  health : (∃ f ∈ group, IsPeer ownDeviceId f) →
    (∃ f ∈ group, IsPeer ownDeviceId f ∧ f.health = r.health) ∧
      ∀ f ∈ group, IsPeer ownDeviceId f → f.health.priority ≤ r.health.priority
  lastSync : (∃ f ∈ group, IsPeer ownDeviceId f) →
    (∃ f ∈ group, f.lastSync = r.lastSync) ∧ ∀ f ∈ group, f.lastSync ≤ r.lastSync
  conflicts : (∃ f ∈ group, IsPeer ownDeviceId f) →
    (∃ f ∈ group, f.conflicts = r.conflicts) ∧ ∀ f ∈ group, f.conflicts ≤ r.conflicts
  alone : (∀ f ∈ group, ¬IsPeer ownDeviceId f) →
    ∀ f ∈ group, f.health = r.health ∧ f.lastSync = r.lastSync ∧ f.conflicts = r.conflicts
  labels : ∃ labels : List String, r.deviceName = some (", ".intercalate labels) ∧
    ∀ l, l ∈ labels ↔ (∃ f ∈ group, IsPeer ownDeviceId f ∧ f.peerLabel ownDeviceId = l) ∨
      l = "this device" ∧ ∃ f ∈ group, ¬IsPeer ownDeviceId f

/-- There is one row for each folder, and it is made of the folder's. -/
structure Aggregates (folders out : List FolderStatus) : Prop where
  nodup : (out.map (·.id)).Nodup
  ids : ∀ id, id ∈ out.map (·.id) ↔ id ∈ folders.map (·.id)
  rows : ∀ r ∈ out, AggregatesGroup ownDeviceId (groupOf folders r.id) r

/-- Two rows that differ at most in the order of their labels. -/
structure SameRow (r r' : FolderStatus) : Prop where
  path : r'.path = r.path
  deviceId : r'.deviceId = r.deviceId
  health : r'.health = r.health
  lastSync : r'.lastSync = r.lastSync
  conflicts : r'.conflicts = r.conflicts
  labels : ∃ labels labels' : List String, labels'.Perm labels ∧
    r.deviceName = some (", ".intercalate labels) ∧ r'.deviceName = some (", ".intercalate labels')

/-- The same rows, but for the order of the rows and of their labels. -/
def SameRows (out out' : List FolderStatus) : Prop :=
  (out'.map (·.id)).Perm (out.map (·.id)) ∧ ∀ r ∈ out, ∀ r' ∈ out', r'.id = r.id → SameRow r r'

/-- The rows of a folder whose device the merged row can get: those of the worst peers, or
any where all peers are healthy. -/
def Leads (group : List FolderStatus) (f : FolderStatus) : Prop :=
  f ∈ group ∧ ((∀ g ∈ group, IsPeer ownDeviceId g → g.health = .healthy) ∨ IsPeer ownDeviceId f ∧
    ∀ g ∈ group, IsPeer ownDeviceId g → g.health.priority ≤ f.health.priority)

/-- It makes no difference which row of the folder comes first. -/
structure UniformGroup (group : List FolderStatus) : Prop where
  path : ∀ f ∈ group, ∀ g ∈ group, f.path = g.path
  device : ∀ f g, Leads ownDeviceId group f → Leads ownDeviceId group g → f.deviceId = g.deviceId
  lastSync : ∀ f ∈ group, (∃ g ∈ group, IsPeer ownDeviceId g) →
    ∃ g ∈ group, IsPeer ownDeviceId g ∧ f.lastSync ≤ g.lastSync
  conflicts : ∀ f ∈ group, (∃ g ∈ group, IsPeer ownDeviceId g) →
    ∃ g ∈ group, IsPeer ownDeviceId g ∧ f.conflicts ≤ g.conflicts
  alone : (∀ f ∈ group, ¬IsPeer ownDeviceId f) → ∀ f ∈ group, ∀ g ∈ group,
    f.health = g.health ∧ f.lastSync = g.lastSync ∧ f.conflicts = g.conflicts

def Uniform (folders : List FolderStatus) : Prop :=
  ∀ id ∈ folders.map (·.id), UniformGroup ownDeviceId (groupOf folders id)

end

/-! ### The rows of a folder, one after another -/

namespace Merge

variable {ownDeviceId : String} {m m' m'' : Merge} {f : FolderStatus} {fs gs : List FolderStatus}

/-- What some rows do to what is known. -/
structure Adds (ownDeviceId : String) (fs : List FolderStatus) (m m' : Merge) : Prop where
  id : m'.merged.id = m.merged.id
  path : m'.merged.path = m.merged.path
  sawSelf : m'.sawSelf = true ↔ m.sawSelf = true ∨ ∃ f ∈ fs, ¬IsPeer ownDeviceId f
  labels : ∀ l, l ∈ m'.labels ↔ l ∈ m.labels ∨
    ∃ f ∈ fs, IsPeer ownDeviceId f ∧ f.peerLabel ownDeviceId = l
  nodup : m.labels.Nodup → m'.labels.Nodup
  lastSync : m.merged.lastSync ≤ m'.merged.lastSync ∧
    ∀ f ∈ fs, IsPeer ownDeviceId f → f.lastSync ≤ m'.merged.lastSync
  lastSync_of : m'.merged.lastSync = m.merged.lastSync ∨
    ∃ f ∈ fs, IsPeer ownDeviceId f ∧ f.lastSync = m'.merged.lastSync
  conflicts : m.merged.conflicts ≤ m'.merged.conflicts ∧
    ∀ f ∈ fs, IsPeer ownDeviceId f → f.conflicts ≤ m'.merged.conflicts
  conflicts_of : m'.merged.conflicts = m.merged.conflicts ∨
    ∃ f ∈ fs, IsPeer ownDeviceId f ∧ f.conflicts = m'.merged.conflicts
  worst : m.worst.priority ≤ m'.worst.priority ∧
    ∀ f ∈ fs, IsPeer ownDeviceId f → f.health.priority ≤ m'.worst.priority
  device : m'.worst = m.worst ∧ m'.merged.deviceId = m.merged.deviceId ∨
    ∃ f ∈ fs, IsPeer ownDeviceId f ∧ m.worst.priority < f.health.priority ∧ f.health = m'.worst ∧
      f.deviceId = m'.merged.deviceId

theorem Adds.refl (m : Merge) : Adds ownDeviceId [] m m := by
  constructor <;> simp

theorem mem_addFirst {labels : List String} {l a : String} :
    l ∈ Keyed.addFirst id labels a ↔ l ∈ labels ∨ a = l := by
  by_cases h : id a ∈ labels.map id
  · rw [Keyed.addFirst_of_mem h]
    rw [List.map_id] at h
    constructor
    · exact Or.inl
    · rintro (hl | rfl)
      · exact hl
      · exact h
  · rw [Keyed.addFirst_of_notMem h, List.mem_append, List.mem_singleton, eq_comm]

theorem nodup_addFirst {labels : List String} {a : String} (h : labels.Nodup) :
    (Keyed.addFirst id labels a).Nodup := by
  have hfold := @Keyed.foldl_addFirst_nodup _ _ id _ [a] labels (by rwa [List.map_id])
  rwa [List.map_id] at hfold

/-- One row. -/
theorem adds_one (ownDeviceId : String) (m : Merge) (f : FolderStatus) :
    Adds ownDeviceId [f] m (m.add ownDeviceId f) := by
  unfold add
  by_cases hown : f.deviceId = ownDeviceId
  · have hself : ¬IsPeer ownDeviceId f := not_not.mpr hown
    rw [if_pos hown]
    constructor <;> simp [hself]
  · have hpeer : IsPeer ownDeviceId f := hown
    rw [if_neg hown]
    constructor
    · rfl
    · rfl
    · simp [hpeer]
    · intro l
      simp [mem_addFirst, hpeer]
    · exact nodup_addFirst
    · simp
    · rcases le_total f.lastSync m.merged.lastSync with h | h
      · exact Or.inl (max_eq_left h)
      · exact Or.inr ⟨f, List.mem_singleton_self f, hpeer, (max_eq_right h).symm⟩
    · simp
    · rcases le_total f.conflicts m.merged.conflicts with h | h
      · exact Or.inl (max_eq_left h)
      · exact Or.inr ⟨f, List.mem_singleton_self f, hpeer, (max_eq_right h).symm⟩
    · by_cases hworse : m.worst.priority < f.health.priority
      · simp only [if_pos hworse]
        exact ⟨hworse.le, fun g hg _ => by rw [List.mem_singleton.mp hg]⟩
      · simp only [if_neg hworse]
        exact ⟨le_refl _, fun g hg _ => by rw [List.mem_singleton.mp hg]; omega⟩
    · by_cases hworse : m.worst.priority < f.health.priority
      · simp only [if_pos hworse]
        exact Or.inr ⟨f, List.mem_singleton_self f, hpeer, hworse, rfl, rfl⟩
      · simp [if_neg hworse]

theorem Adds.append (h : Adds ownDeviceId fs m m') (h' : Adds ownDeviceId gs m' m'') :
    Adds ownDeviceId (fs ++ gs) m m'' := by
  constructor
  · rw [h'.id, h.id]
  · rw [h'.path, h.path]
  · simp only [h'.sawSelf, h.sawSelf, List.mem_append, or_and_right, exists_or, or_assoc]
  · intro l
    simp only [h'.labels, h.labels, List.mem_append, or_and_right, exists_or, or_assoc]
  · exact fun hnodup => h'.nodup (h.nodup hnodup)
  · refine ⟨h.lastSync.1.trans h'.lastSync.1, fun f hf hpeer => ?_⟩
    rcases List.mem_append.mp hf with hf | hf
    · exact (h.lastSync.2 f hf hpeer).trans h'.lastSync.1
    · exact h'.lastSync.2 f hf hpeer
  · rcases h'.lastSync_of with heq | ⟨f, hf, hpeer, heq⟩
    · rw [heq]
      rcases h.lastSync_of with heq | ⟨f, hf, hpeer, heq⟩
      · exact Or.inl heq
      · exact Or.inr ⟨f, List.mem_append_left _ hf, hpeer, heq⟩
    · exact Or.inr ⟨f, List.mem_append_right _ hf, hpeer, heq⟩
  · refine ⟨h.conflicts.1.trans h'.conflicts.1, fun f hf hpeer => ?_⟩
    rcases List.mem_append.mp hf with hf | hf
    · exact (h.conflicts.2 f hf hpeer).trans h'.conflicts.1
    · exact h'.conflicts.2 f hf hpeer
  · rcases h'.conflicts_of with heq | ⟨f, hf, hpeer, heq⟩
    · rw [heq]
      rcases h.conflicts_of with heq | ⟨f, hf, hpeer, heq⟩
      · exact Or.inl heq
      · exact Or.inr ⟨f, List.mem_append_left _ hf, hpeer, heq⟩
    · exact Or.inr ⟨f, List.mem_append_right _ hf, hpeer, heq⟩
  · refine ⟨h.worst.1.trans h'.worst.1, fun f hf hpeer => ?_⟩
    rcases List.mem_append.mp hf with hf | hf
    · exact (h.worst.2 f hf hpeer).trans h'.worst.1
    · exact h'.worst.2 f hf hpeer
  · rcases h'.device with ⟨hworst, hdevice⟩ | ⟨f, hf, hpeer, hlt, hhealth, hdevice⟩
    · rw [hworst, hdevice]
      rcases h.device with hsame | ⟨f, hf, hrest⟩
      · exact Or.inl hsame
      · exact Or.inr ⟨f, List.mem_append_left _ hf, hrest⟩
    · exact Or.inr ⟨f, List.mem_append_right _ hf, hpeer, h.worst.1.trans_lt hlt, hhealth, hdevice⟩

/-- All the rows. -/
theorem addAll (ownDeviceId : String) : ∀ (fs : List FolderStatus) (m : Merge),
    Adds ownDeviceId fs m (fs.foldl (Merge.add ownDeviceId) m)
  | [], m => Adds.refl m
  | f :: fs, m => (adds_one ownDeviceId m f).append (addAll ownDeviceId fs (m.add ownDeviceId f))

end Merge

/-! ### The row of a folder -/

section

variable {ownDeviceId : String} {first second : FolderStatus} {rest others : List FolderStatus}

instance : Decidable (IsPeer ownDeviceId first) := inferInstanceAs (Decidable (_ ≠ _))

theorem priority_injective : Function.Injective FolderHealth.priority := by
  intro h h' heq
  cases h <;> cases h' <;> first | rfl | exact absurd heq (by decide)

theorem eq_healthy_of_priority {h : FolderHealth} (hle : h.priority ≤ 0) : h = .healthy :=
  priority_injective (Nat.le_zero.mp hle)

/-- The rows of the folder, and what they come to before the row is finished. -/
def mergeRows (ownDeviceId : String) (first : FolderStatus) (rest : List FolderStatus) : Merge :=
  (first :: rest).foldl (Merge.add ownDeviceId) (Merge.start first)

theorem mergeRows_adds : Merge.Adds ownDeviceId (first :: rest) (Merge.start first)
    (mergeRows ownDeviceId first rest) :=
  Merge.addAll ownDeviceId (first :: rest) (Merge.start first)

theorem mem_labels (l : String) : l ∈ (mergeRows ownDeviceId first rest).labels ↔
    ∃ f ∈ first :: rest, IsPeer ownDeviceId f ∧ f.peerLabel ownDeviceId = l := by
  rw [mergeRows_adds.labels]
  simp only [Merge.start, List.not_mem_nil, false_or]

theorem labels_eq_nil_iff : (mergeRows ownDeviceId first rest).labels = [] ↔
    ∀ f ∈ first :: rest, ¬IsPeer ownDeviceId f := by
  rw [List.eq_nil_iff_forall_not_mem]
  constructor
  · intro h f hf hpeer
    exact h _ ((mem_labels _).mpr ⟨f, hf, hpeer, rfl⟩)
  · intro h l hl
    obtain ⟨f, hf, hpeer, _⟩ := (mem_labels l).mp hl
    exact h f hf hpeer

theorem sawSelf_iff : (mergeRows ownDeviceId first rest).sawSelf = true ↔
    ∃ f ∈ first :: rest, ¬IsPeer ownDeviceId f := by
  rw [mergeRows_adds.sawSelf]
  simp only [Merge.start, Bool.false_eq_true, false_or]

theorem mergeGroup_eq_of_peer (h : ∃ f ∈ first :: rest, IsPeer ownDeviceId f) :
    mergeGroup ownDeviceId first rest = { (mergeRows ownDeviceId first rest).merged with
      health := (mergeRows ownDeviceId first rest).worst
      deviceName := some (", ".intercalate (if (mergeRows ownDeviceId first rest).sawSelf
        then (mergeRows ownDeviceId first rest).labels ++ ["this device"]
        else (mergeRows ownDeviceId first rest).labels)) } := by
  obtain ⟨f, hf, hpeer⟩ := h
  exact if_neg (mt labels_eq_nil_iff.mp fun hnone => hnone f hf hpeer)

theorem mergeGroup_eq_of_alone (h : ∀ f ∈ first :: rest, ¬IsPeer ownDeviceId f) :
    mergeGroup ownDeviceId first rest = { (mergeRows ownDeviceId first rest).merged with
      health := first.health
      deviceId := first.deviceId
      lastSync := first.lastSync
      conflicts := first.conflicts
      deviceName := some (", ".intercalate ["this device"]) } :=
  if_pos (labels_eq_nil_iff.mpr h)

/-- There is a peer, or all the rows are the own device's. -/
theorem peer_or_alone (ownDeviceId : String) (group : List FolderStatus) :
    (∃ f ∈ group, IsPeer ownDeviceId f) ∨ ∀ f ∈ group, ¬IsPeer ownDeviceId f := by
  by_cases h : ∃ f ∈ group, IsPeer ownDeviceId f
  · exact Or.inl h
  · exact Or.inr fun f hf hpeer => h ⟨f, hf, hpeer⟩

theorem mergeGroup_id : (mergeGroup ownDeviceId first rest).id = first.id := by
  rcases peer_or_alone ownDeviceId (first :: rest) with h | h
  · rw [mergeGroup_eq_of_peer h]
    exact mergeRows_adds.id
  · rw [mergeGroup_eq_of_alone h]
    exact mergeRows_adds.id

/-- The path is that of the first row. -/
theorem mergeGroup_path : (mergeGroup ownDeviceId first rest).path = first.path := by
  rcases peer_or_alone ownDeviceId (first :: rest) with h | h
  · rw [mergeGroup_eq_of_peer h]
    exact mergeRows_adds.path
  · rw [mergeGroup_eq_of_alone h]
    exact mergeRows_adds.path

/-- The worst health of the peers. -/
theorem mergeGroup_health (h : ∃ f ∈ first :: rest, IsPeer ownDeviceId f) :
    (∃ f ∈ first :: rest, IsPeer ownDeviceId f ∧ f.health = (mergeGroup ownDeviceId first rest).health) ∧
      ∀ f ∈ first :: rest, IsPeer ownDeviceId f →
        f.health.priority ≤ (mergeGroup ownDeviceId first rest).health.priority := by
  rw [mergeGroup_eq_of_peer h]
  have hadds : Merge.Adds ownDeviceId (first :: rest) _ _ := mergeRows_adds
  refine ⟨?_, hadds.worst.2⟩
  rcases hadds.device with ⟨hworst, _⟩ | ⟨f, hf, hpeer, _, hhealth, _⟩
  · -- Nothing was worse than healthy.
    obtain ⟨f, hf, hpeer⟩ := h
    have hle : f.health.priority ≤ FolderHealth.healthy.priority := by
      calc f.health.priority ≤ (mergeRows ownDeviceId first rest).worst.priority :=
            hadds.worst.2 f hf hpeer
        _ = FolderHealth.healthy.priority := congrArg FolderHealth.priority hworst
    exact ⟨f, hf, hpeer, (eq_healthy_of_priority hle).trans hworst.symm⟩
  · exact ⟨f, hf, hpeer, hhealth⟩

/-- The latest time of the first row and the peers. -/
theorem mergeGroup_lastSync (h : ∃ f ∈ first :: rest, IsPeer ownDeviceId f) :
    first.lastSync ≤ (mergeGroup ownDeviceId first rest).lastSync ∧
      (∀ f ∈ first :: rest, IsPeer ownDeviceId f →
        f.lastSync ≤ (mergeGroup ownDeviceId first rest).lastSync) ∧
      ((mergeGroup ownDeviceId first rest).lastSync = first.lastSync ∨ ∃ f ∈ first :: rest,
        IsPeer ownDeviceId f ∧ f.lastSync = (mergeGroup ownDeviceId first rest).lastSync) := by
  rw [mergeGroup_eq_of_peer h]
  have hadds : Merge.Adds ownDeviceId (first :: rest) _ _ := mergeRows_adds
  exact ⟨hadds.lastSync.1, hadds.lastSync.2, hadds.lastSync_of⟩

/-- The most conflicts of the first row and the peers. -/
theorem mergeGroup_conflicts (h : ∃ f ∈ first :: rest, IsPeer ownDeviceId f) :
    first.conflicts ≤ (mergeGroup ownDeviceId first rest).conflicts ∧
      (∀ f ∈ first :: rest, IsPeer ownDeviceId f →
        f.conflicts ≤ (mergeGroup ownDeviceId first rest).conflicts) ∧
      ((mergeGroup ownDeviceId first rest).conflicts = first.conflicts ∨ ∃ f ∈ first :: rest,
        IsPeer ownDeviceId f ∧ f.conflicts = (mergeGroup ownDeviceId first rest).conflicts) := by
  rw [mergeGroup_eq_of_peer h]
  have hadds : Merge.Adds ownDeviceId (first :: rest) _ _ := mergeRows_adds
  exact ⟨hadds.conflicts.1, hadds.conflicts.2, hadds.conflicts_of⟩

theorem mergeGroup_alone (h : ∀ f ∈ first :: rest, ¬IsPeer ownDeviceId f) :
    (mergeGroup ownDeviceId first rest).health = first.health ∧
      (mergeGroup ownDeviceId first rest).deviceId = first.deviceId ∧
      (mergeGroup ownDeviceId first rest).lastSync = first.lastSync ∧
      (mergeGroup ownDeviceId first rest).conflicts = first.conflicts := by
  rw [mergeGroup_eq_of_alone h]
  exact ⟨rfl, rfl, rfl, rfl⟩

/-- The labels, each peer's once. -/
theorem mergeGroup_labels : ∃ peers : List String, peers.Nodup ∧
    (∀ l, l ∈ peers ↔ ∃ f ∈ first :: rest, IsPeer ownDeviceId f ∧ f.peerLabel ownDeviceId = l) ∧
    (mergeGroup ownDeviceId first rest).deviceName = some (", ".intercalate
      (if ∃ f ∈ first :: rest, ¬IsPeer ownDeviceId f then peers ++ ["this device"] else peers)) := by
  rcases peer_or_alone ownDeviceId (first :: rest) with h | h
  · refine ⟨(mergeRows ownDeviceId first rest).labels, mergeRows_adds.nodup List.nodup_nil, mem_labels, ?_⟩
    rw [mergeGroup_eq_of_peer h]
    simp only [sawSelf_iff]
  · refine ⟨[], List.nodup_nil, fun l => ?_, ?_⟩
    · refine iff_of_false List.not_mem_nil ?_
      rintro ⟨f, hf, hpeer, _⟩
      exact h f hf hpeer
    · have hself : ∃ f ∈ first :: rest, ¬IsPeer ownDeviceId f :=
        ⟨first, List.mem_cons_self, h first List.mem_cons_self⟩
      rw [mergeGroup_eq_of_alone h, if_pos hself]
      rfl

/-- The device is that of a row of the worst peers, or of any where all are healthy. -/
theorem mergeGroup_device :
    ∃ f, Leads ownDeviceId (first :: rest) f ∧ f.deviceId = (mergeGroup ownDeviceId first rest).deviceId := by
  rcases peer_or_alone ownDeviceId (first :: rest) with h | h
  · rw [mergeGroup_eq_of_peer h]
    have hadds : Merge.Adds ownDeviceId (first :: rest) _ _ := mergeRows_adds
    rcases hadds.device with ⟨hworst, hdevice⟩ | ⟨f, hf, hpeer, _, hhealth, hdevice⟩
    · refine ⟨first, ⟨List.mem_cons_self, Or.inl fun g hg hpeer => ?_⟩, hdevice.symm⟩
      apply eq_healthy_of_priority
      calc g.health.priority ≤ (mergeRows ownDeviceId first rest).worst.priority :=
            hadds.worst.2 g hg hpeer
        _ = FolderHealth.healthy.priority := congrArg FolderHealth.priority hworst
    · refine ⟨f, ⟨hf, Or.inr ⟨hpeer, fun g hg hpeer' => ?_⟩⟩, hdevice⟩
      rw [hhealth]
      exact hadds.worst.2 g hg hpeer'
  · rw [mergeGroup_eq_of_alone h]
    exact ⟨first, ⟨List.mem_cons_self, Or.inl fun g hg hpeer => absurd hpeer (h g hg)⟩, rfl⟩

/-- A first row that can give the device does. -/
theorem mergeGroup_device_first (h : Leads ownDeviceId (first :: rest) first) :
    (mergeGroup ownDeviceId first rest).deviceId = first.deviceId := by
  rcases peer_or_alone ownDeviceId (first :: rest) with hsome | halone
  · rw [mergeGroup_eq_of_peer hsome]
    change (mergeRows ownDeviceId first rest).merged.deviceId = first.deviceId
    by_cases hhealthy : ∀ g ∈ first :: rest, IsPeer ownDeviceId g → g.health = .healthy
    · have hadds : Merge.Adds ownDeviceId (first :: rest) _ (mergeRows ownDeviceId first rest) := mergeRows_adds
      rcases hadds.device with ⟨_, hdevice⟩ | ⟨f, hf, hpeer, hlt, _, _⟩
      · exact hdevice
      · rw [hhealthy f hf hpeer] at hlt
        exact absurd hlt (lt_irrefl _)
    · -- The first row is a peer that is not healthy, and no other is worse.
      obtain ⟨hpeer, hmax⟩ := h.2.resolve_left hhealthy
      have hworse : FolderHealth.healthy.priority < first.health.priority := by
        by_contra hle
        apply hhealthy
        intro g hg hg'
        exact eq_healthy_of_priority ((hmax g hg hg').trans (not_lt.mp hle))
      have hadd : ((Merge.start first).add ownDeviceId first).worst = first.health ∧
          ((Merge.start first).add ownDeviceId first).merged.deviceId = first.deviceId := by
        unfold Merge.add Merge.start
        rw [if_neg hpeer]
        exact ⟨if_pos hworse, if_pos hworse⟩
      have hrest : Merge.Adds ownDeviceId rest ((Merge.start first).add ownDeviceId first)
          (mergeRows ownDeviceId first rest) := Merge.addAll ownDeviceId rest _
      rcases hrest.device with ⟨_, hdevice⟩ | ⟨f, hf, hpeer', hlt, _, _⟩
      · exact hdevice.trans hadd.2
      · rw [hadd.1] at hlt
        exact absurd (hmax f (List.mem_cons_of_mem _ hf) hpeer') (not_le.mpr hlt)
  · exact (mergeGroup_alone halone).2.1

/-! ### The order of the rows of a folder -/

theorem leads_perm {group others : List FolderStatus} (h : others.Perm group) (f : FolderStatus) :
    Leads ownDeviceId others f ↔ Leads ownDeviceId group f := by
  unfold Leads
  simp only [h.mem_iff]

theorem uniformGroup_perm {group others : List FolderStatus} (h : others.Perm group)
    (huniform : UniformGroup ownDeviceId group) : UniformGroup ownDeviceId others := by
  constructor
  · simpa only [h.mem_iff] using huniform.path
  · simpa only [leads_perm h] using huniform.device
  · simpa only [h.mem_iff] using huniform.lastSync
  · simpa only [h.mem_iff] using huniform.conflicts
  · simpa only [h.mem_iff] using huniform.alone

/-- A merged row of a folder whose first row makes no difference is made of its rows. -/
theorem aggregates_of_uniform (huniform : UniformGroup ownDeviceId (first :: rest)) :
    AggregatesGroup ownDeviceId (first :: rest) (mergeGroup ownDeviceId first rest) := by
  constructor
  · exact mergeGroup_health
  · intro hsome
    obtain ⟨_, hpeers, hof⟩ := mergeGroup_lastSync hsome
    refine ⟨?_, fun f hf => ?_⟩
    · rcases hof with hfirst | ⟨f, hf, _, heq⟩
      · exact ⟨first, List.mem_cons_self, hfirst.symm⟩
      · exact ⟨f, hf, heq⟩
    · obtain ⟨g, hg, hpeer, hle⟩ := huniform.lastSync f hf hsome
      exact hle.trans (hpeers g hg hpeer)
  · intro hsome
    obtain ⟨_, hpeers, hof⟩ := mergeGroup_conflicts hsome
    refine ⟨?_, fun f hf => ?_⟩
    · rcases hof with hfirst | ⟨f, hf, _, heq⟩
      · exact ⟨first, List.mem_cons_self, hfirst.symm⟩
      · exact ⟨f, hf, heq⟩
    · obtain ⟨g, hg, hpeer, hle⟩ := huniform.conflicts f hf hsome
      exact hle.trans (hpeers g hg hpeer)
  · intro halone f hf
    obtain ⟨hhealth, _, hlast, hconflicts⟩ := mergeGroup_alone halone
    rw [hhealth, hlast, hconflicts]
    exact huniform.alone halone f hf first List.mem_cons_self
  · obtain ⟨peers, _, hmem, hname⟩ := @mergeGroup_labels ownDeviceId first rest
    refine ⟨_, hname, fun l => ?_⟩
    by_cases hself : ∃ f ∈ first :: rest, ¬IsPeer ownDeviceId f
    · rw [if_pos hself, List.mem_append, List.mem_singleton, hmem, and_iff_left hself]
    · rw [if_neg hself, hmem]
      exact (or_iff_left fun h => hself h.2).symm

/-- The labels do not depend on the order of the rows. -/
theorem labels_perm (h : (second :: others).Perm (first :: rest)) :
    ∃ labels labels' : List String, labels'.Perm labels ∧
      (mergeGroup ownDeviceId first rest).deviceName = some (", ".intercalate labels) ∧
      (mergeGroup ownDeviceId second others).deviceName = some (", ".intercalate labels') := by
  obtain ⟨peers, hnodup, hmem, hname⟩ := @mergeGroup_labels ownDeviceId first rest
  obtain ⟨peers', hnodup', hmem', hname'⟩ := @mergeGroup_labels ownDeviceId second others
  have hpeers : peers'.Perm peers := by
    refine (List.perm_ext_iff_of_nodup hnodup' hnodup).mpr fun l => ?_
    rw [hmem, hmem']
    simp only [h.mem_iff]
  refine ⟨_, _, ?_, hname, hname'⟩
  simp only [h.mem_iff]
  by_cases hself : ∃ f ∈ first :: rest, ¬IsPeer ownDeviceId f
  · rw [if_pos hself, if_pos hself]
    exact hpeers.append_right _
  · rw [if_neg hself, if_neg hself]
    exact hpeers

/-- Two orders of the rows of such a folder give the same row. -/
theorem sameRow_of_uniform (huniform : UniformGroup ownDeviceId (first :: rest))
    (h : (second :: others).Perm (first :: rest)) :
    SameRow (mergeGroup ownDeviceId first rest) (mergeGroup ownDeviceId second others) := by
  have hmade := aggregates_of_uniform huniform
  have hmade' := aggregates_of_uniform (uniformGroup_perm h huniform)
  have hfirst : second ∈ first :: rest := h.mem_iff.mp List.mem_cons_self
  have hdevice : (mergeGroup ownDeviceId second others).deviceId =
      (mergeGroup ownDeviceId first rest).deviceId := by
    obtain ⟨f, hf, heq⟩ := @mergeGroup_device ownDeviceId first rest
    obtain ⟨g, hg, heq'⟩ := @mergeGroup_device ownDeviceId second others
    rw [← heq, ← heq']
    exact huniform.device g f ((leads_perm h g).mp hg) hf
  have hpath : (mergeGroup ownDeviceId second others).path = (mergeGroup ownDeviceId first rest).path := by
    rw [mergeGroup_path, mergeGroup_path]
    exact huniform.path second hfirst first List.mem_cons_self
  rcases peer_or_alone ownDeviceId (first :: rest) with hsome | halone
  · have hsome' : ∃ f ∈ second :: others, IsPeer ownDeviceId f := by simpa only [h.mem_iff] using hsome
    refine ⟨hpath, hdevice, ?_, ?_, ?_, labels_perm h⟩
    · obtain ⟨⟨f, hf, hpeer, heq⟩, hmax⟩ := hmade.health hsome
      obtain ⟨⟨g, hg, hpeer', heq'⟩, hmax'⟩ := hmade'.health hsome'
      apply priority_injective
      apply le_antisymm
      · rw [← heq']
        exact hmax g (h.mem_iff.mp hg) hpeer'
      · rw [← heq]
        exact hmax' f (h.mem_iff.mpr hf) hpeer
    · obtain ⟨⟨f, hf, heq⟩, hmax⟩ := hmade.lastSync hsome
      obtain ⟨⟨g, hg, heq'⟩, hmax'⟩ := hmade'.lastSync hsome'
      apply le_antisymm
      · rw [← heq']
        exact hmax g (h.mem_iff.mp hg)
      · rw [← heq]
        exact hmax' f (h.mem_iff.mpr hf)
    · obtain ⟨⟨f, hf, heq⟩, hmax⟩ := hmade.conflicts hsome
      obtain ⟨⟨g, hg, heq'⟩, hmax'⟩ := hmade'.conflicts hsome'
      apply le_antisymm
      · rw [← heq']
        exact hmax g (h.mem_iff.mp hg)
      · rw [← heq]
        exact hmax' f (h.mem_iff.mpr hf)
  · have halone' : ∀ f ∈ second :: others, ¬IsPeer ownDeviceId f := by simpa only [h.mem_iff] using halone
    obtain ⟨hhealth, hlast, hconflicts⟩ := hmade.alone halone second hfirst
    obtain ⟨hhealth', hlast', hconflicts'⟩ := hmade'.alone halone' second List.mem_cons_self
    exact ⟨hpath, hdevice, hhealth'.symm.trans hhealth, hlast'.symm.trans hlast,
      hconflicts'.symm.trans hconflicts, labels_perm h⟩

/-- Where every order gives the same row, the first row makes no difference: each row of the
folder is first in some order. -/
theorem uniform_of_sameRow (h : ∀ second others, (second :: others).Perm (first :: rest) →
      SameRow (mergeGroup ownDeviceId first rest) (mergeGroup ownDeviceId second others)) :
    UniformGroup ownDeviceId (first :: rest) := by
  have hput : ∀ f ∈ first :: rest, ∃ others, (f :: others).Perm (first :: rest) := fun f hf =>
    ⟨(first :: rest).erase f, (List.perm_cons_erase hf).symm⟩
  have hpath : ∀ f ∈ first :: rest, f.path = (mergeGroup ownDeviceId first rest).path := by
    intro f hf
    obtain ⟨others, hperm⟩ := hput f hf
    rw [← (h f others hperm).path, mergeGroup_path]
  have hdevice : ∀ f, Leads ownDeviceId (first :: rest) f →
      f.deviceId = (mergeGroup ownDeviceId first rest).deviceId := by
    intro f hf
    obtain ⟨others, hperm⟩ := hput f hf.1
    rw [← (h f others hperm).deviceId, mergeGroup_device_first ((leads_perm hperm f).mpr hf)]
  constructor
  · intro f hf g hg
    rw [hpath f hf, hpath g hg]
  · intro f g hf hg
    rw [hdevice f hf, hdevice g hg]
  · rintro f hf ⟨g, hg, hpeer⟩
    obtain ⟨others, hperm⟩ := hput f hf
    obtain ⟨others', hperm'⟩ := hput g hg
    have hsome : ∃ g ∈ f :: others, IsPeer ownDeviceId g := ⟨g, hperm.mem_iff.mpr hg, hpeer⟩
    have hsome' : ∃ g' ∈ g :: others', IsPeer ownDeviceId g' := ⟨g, List.mem_cons_self, hpeer⟩
    have hle : f.lastSync ≤ (mergeGroup ownDeviceId g others').lastSync := by
      rw [(h g others' hperm').lastSync, ← (h f others hperm).lastSync]
      exact (mergeGroup_lastSync hsome).1
    rcases (mergeGroup_lastSync hsome').2.2 with heq | ⟨g', hg', hpeer', heq⟩
    · exact ⟨g, hg, hpeer, hle.trans_eq heq⟩
    · exact ⟨g', hperm'.mem_iff.mp hg', hpeer', hle.trans_eq heq.symm⟩
  · rintro f hf ⟨g, hg, hpeer⟩
    obtain ⟨others, hperm⟩ := hput f hf
    obtain ⟨others', hperm'⟩ := hput g hg
    have hsome : ∃ g ∈ f :: others, IsPeer ownDeviceId g := ⟨g, hperm.mem_iff.mpr hg, hpeer⟩
    have hsome' : ∃ g' ∈ g :: others', IsPeer ownDeviceId g' := ⟨g, List.mem_cons_self, hpeer⟩
    have hle : f.conflicts ≤ (mergeGroup ownDeviceId g others').conflicts := by
      rw [(h g others' hperm').conflicts, ← (h f others hperm).conflicts]
      exact (mergeGroup_conflicts hsome).1
    rcases (mergeGroup_conflicts hsome').2.2 with heq | ⟨g', hg', hpeer', heq⟩
    · exact ⟨g, hg, hpeer, hle.trans_eq heq⟩
    · exact ⟨g', hperm'.mem_iff.mp hg', hpeer', hle.trans_eq heq.symm⟩
  · intro halone
    have hvalues : ∀ f ∈ first :: rest, f.health = (mergeGroup ownDeviceId first rest).health ∧
        f.lastSync = (mergeGroup ownDeviceId first rest).lastSync ∧
        f.conflicts = (mergeGroup ownDeviceId first rest).conflicts := by
      intro f hf
      obtain ⟨others, hperm⟩ := hput f hf
      have halone' : ∀ g ∈ f :: others, ¬IsPeer ownDeviceId g := by simpa only [hperm.mem_iff] using halone
      obtain ⟨hhealth, _, hlast, hconflicts⟩ := mergeGroup_alone halone'
      have hsame := h f others hperm
      exact ⟨hhealth.symm.trans hsame.health, hlast.symm.trans hsame.lastSync,
        hconflicts.symm.trans hsame.conflicts⟩
    intro f hf g hg
    obtain ⟨hhealth, hlast, hconflicts⟩ := hvalues f hf
    obtain ⟨hhealth', hlast', hconflicts'⟩ := hvalues g hg
    exact ⟨hhealth.trans hhealth'.symm, hlast.trans hlast'.symm, hconflicts.trans hconflicts'.symm⟩

end

/-! ### All the folders -/

section

variable {ownDeviceId : String} {folders folders' : List FolderStatus} {r : FolderStatus} {folderId : ℕ}

theorem mem_groupOf {f : FolderStatus} :
    f ∈ groupOf folders folderId ↔ f ∈ folders ∧ f.id = folderId := by
  unfold groupOf
  rw [List.mem_filter, decide_eq_true_iff]

theorem groupOf_perm (h : folders'.Perm folders) (folderId : ℕ) :
    (groupOf folders' folderId).Perm (groupOf folders folderId) :=
  h.filter _

/-- A folder that has a row has a first. -/
theorem groupOf_eq_cons (h : folderId ∈ folders.map (·.id)) :
    ∃ first rest, groupOf folders folderId = first :: rest := by
  obtain ⟨f, hf, heq⟩ := List.mem_map.mp h
  exact List.exists_cons_of_ne_nil (List.ne_nil_of_mem (mem_groupOf.mpr ⟨hf, heq⟩))

theorem id_of_groupOf {first : FolderStatus} {rest : List FolderStatus}
    (h : groupOf folders folderId = first :: rest) : first.id = folderId :=
  (mem_groupOf.mp (h ▸ List.mem_cons_self)).2

theorem mem_folderIds : folderId ∈ Keyed.keepFirst id (folders.map (·.id)) ↔
    folderId ∈ folders.map (·.id) := by
  constructor
  · exact Keyed.mem_of_mem_keepFirst
  · intro h
    obtain ⟨b, hb, heq⟩ := @Keyed.exists_mem_keepFirst _ _ id _ _ _ h
    rw [id, id] at heq
    exact heq ▸ hb

theorem mem_groupFolders : r ∈ groupFolders folders ownDeviceId ↔
    ∃ first rest, groupOf folders r.id = first :: rest ∧ r = mergeGroup ownDeviceId first rest := by
  unfold groupFolders
  rw [List.mem_filterMap]
  constructor
  · rintro ⟨folderId, hid, hr⟩
    obtain ⟨first, rest, hgroup⟩ := groupOf_eq_cons (mem_folderIds.mp hid)
    rw [hgroup] at hr
    have hmerged : mergeGroup ownDeviceId first rest = r := Option.some.inj hr
    have hrid : r.id = folderId := by rw [← hmerged, mergeGroup_id, id_of_groupOf hgroup]
    exact ⟨first, rest, hrid ▸ hgroup, hmerged.symm⟩
  · rintro ⟨first, rest, hgroup, hr⟩
    refine ⟨r.id, mem_folderIds.mpr ?_, ?_⟩
    · have hfirst : first ∈ groupOf folders r.id := hgroup ▸ List.mem_cons_self
      obtain ⟨hmem, heq⟩ := mem_groupOf.mp hfirst
      exact List.mem_map.mpr ⟨first, hmem, heq⟩
    · rw [hgroup]
      exact congrArg some hr.symm

/-- The rows are those of the folders, in the order of their first rows. -/
theorem groupFolders_ids : (groupFolders folders ownDeviceId).map (·.id) =
    Keyed.keepFirst id (folders.map (·.id)) := by
  unfold groupFolders
  rw [List.map_filterMap]
  calc _ = (Keyed.keepFirst id (folders.map (·.id))).filterMap some := by
        refine List.filterMap_congr fun folderId hid => ?_
        obtain ⟨first, rest, hgroup⟩ := groupOf_eq_cons (mem_folderIds.mp hid)
        rw [hgroup]
        exact congrArg some (mergeGroup_id.trans (id_of_groupOf hgroup))
    _ = Keyed.keepFirst id (folders.map (·.id)) := List.filterMap_some

theorem groupFolders_nodup : ((groupFolders folders ownDeviceId).map (·.id)).Nodup := by
  have h := @Keyed.keepFirst_nodup _ _ id _ (folders.map (·.id))
  rw [groupFolders_ids]
  rwa [List.map_id] at h

theorem mem_groupFolders_ids : folderId ∈ (groupFolders folders ownDeviceId).map (·.id) ↔
    folderId ∈ folders.map (·.id) := by
  rw [groupFolders_ids]
  exact mem_folderIds

/-- The row of a folder. -/
theorem exists_groupFolders {first : FolderStatus} {rest : List FolderStatus}
    (h : groupOf folders folderId = first :: rest) :
    mergeGroup ownDeviceId first rest ∈ groupFolders folders ownDeviceId := by
  have hid : (mergeGroup ownDeviceId first rest).id = folderId := mergeGroup_id.trans (id_of_groupOf h)
  exact mem_groupFolders.mpr ⟨first, rest, by rwa [hid], rfl⟩

theorem groupFolders_ids_perm (h : folders'.Perm folders) :
    ((groupFolders folders' ownDeviceId).map (·.id)).Perm ((groupFolders folders ownDeviceId).map (·.id)) := by
  refine (List.perm_ext_iff_of_nodup groupFolders_nodup groupFolders_nodup).mpr fun folderId => ?_
  rw [mem_groupFolders_ids, mem_groupFolders_ids]
  exact (h.map _).mem_iff

/-- The rows with those of one folder in another order and before the others. -/
theorem exists_perm_groupOf {group : List FolderStatus} (h : group.Perm (groupOf folders folderId)) :
    ∃ folders', folders'.Perm folders ∧ groupOf folders' folderId = group := by
  refine ⟨group ++ folders.filter (fun f => !decide (f.id = folderId)), ?_, ?_⟩
  · exact (h.append_right _).trans (List.filter_append_perm _ folders)
  · have hgroup : group.filter (fun f => decide (f.id = folderId)) = group :=
      List.filter_eq_self.mpr fun f hf => decide_eq_true (mem_groupOf.mp (h.mem_iff.mp hf)).2
    have hothers : (folders.filter (fun f => !decide (f.id = folderId))).filter
        (fun f => decide (f.id = folderId)) = [] := by
      refine List.filter_eq_nil_iff.mpr fun f hf heq => ?_
      have hnot := (List.mem_filter.mp hf).2
      rw [heq] at hnot
      exact absurd hnot (by decide)
    calc groupOf (group ++ folders.filter (fun f => !decide (f.id = folderId))) folderId
        = group ++ [] := by rw [groupOf, List.filter_append, hgroup, hothers]
      _ = group := List.append_nil group

end

/-- **The rows of the folders are aggregates that do not depend on the order of the rows**
exactly if it makes no difference which row of a folder comes first. -/
theorem group_folders_aggregates_iff (folders : List FolderStatus) (ownDeviceId : String) :
    (Aggregates ownDeviceId folders (groupFolders folders ownDeviceId) ∧
      ∀ folders', folders'.Perm folders →
        SameRows (groupFolders folders ownDeviceId) (groupFolders folders' ownDeviceId)) ↔
      Uniform ownDeviceId folders := by
  constructor
  · rintro ⟨_, hsame⟩ folderId hid
    obtain ⟨first, rest, hgroup⟩ := groupOf_eq_cons hid
    rw [hgroup]
    apply uniform_of_sameRow
    intro second others hperm
    obtain ⟨folders', hfolders, hgroup'⟩ := exists_perm_groupOf (hgroup.symm ▸ hperm)
    refine (hsame folders' hfolders).2 _ (exists_groupFolders hgroup) _ (exists_groupFolders hgroup') ?_
    rw [mergeGroup_id, mergeGroup_id, id_of_groupOf hgroup, id_of_groupOf hgroup']
  · intro huniform
    have hgroups : ∀ r ∈ groupFolders folders ownDeviceId, ∃ first rest,
        groupOf folders r.id = first :: rest ∧ r = mergeGroup ownDeviceId first rest ∧
          UniformGroup ownDeviceId (first :: rest) := by
      intro r hr
      obtain ⟨first, rest, hgroup, hmerged⟩ := mem_groupFolders.mp hr
      have hid : r.id ∈ folders.map (·.id) := mem_groupFolders_ids.mp (List.mem_map_of_mem hr)
      exact ⟨first, rest, hgroup, hmerged, hgroup ▸ huniform r.id hid⟩
    refine ⟨⟨groupFolders_nodup, fun _ => mem_groupFolders_ids, fun r hr => ?_⟩, fun folders' hperm =>
      ⟨groupFolders_ids_perm hperm, fun r hr r' hr' hid => ?_⟩⟩
    · obtain ⟨first, rest, hgroup, hmerged, hfirst⟩ := hgroups r hr
      rw [hgroup, hmerged]
      exact aggregates_of_uniform hfirst
    · obtain ⟨first, rest, hgroup, hmerged, hfirst⟩ := hgroups r hr
      obtain ⟨second, others, hgroup', hmerged'⟩ := mem_groupFolders.mp hr'
      have hgroups' : (second :: others).Perm (first :: rest) := by
        rw [← hgroup, ← hgroup', hid]
        exact groupOf_perm hperm r.id
      rw [hmerged, hmerged']
      exact sameRow_of_uniform hfirst hgroups'

/-- The folder of a phone that the laptop has synced last. -/
def musicRows : List FolderStatus :=
  [⟨1, "music", "phone", some "Phone", .healthy, ((100 : ℤ) : WithBot ℤ), 0⟩,
    ⟨1, "music", "laptop", some "Laptop", .notConfigured, ((200 : ℤ) : WithBot ℤ), 0⟩]

/-- **A later time of the own device is lost** where a peer comes first. -/
theorem group_folders_loses_own_time :
    ¬Aggregates "laptop" musicRows (groupFolders musicRows "laptop") := by
  intro h
  have hrow : (⟨1, "music", "phone", some "Phone, this device", .healthy, ((100 : ℤ) : WithBot ℤ), 0⟩ :
      FolderStatus) ∈ groupFolders musicRows "laptop" := by decide +kernel
  have hpeer : ∃ f ∈ groupOf musicRows 1, IsPeer "laptop" f := by decide +kernel
  have hown : (⟨1, "music", "laptop", some "Laptop", .notConfigured, ((200 : ℤ) : WithBot ℤ), 0⟩ :
      FolderStatus) ∈ groupOf musicRows 1 := by decide +kernel
  have hle : ((200 : ℤ) : WithBot ℤ) ≤ ((100 : ℤ) : WithBot ℤ) := ((h.rows _ hrow).lastSync hpeer).2 _ hown
  exact absurd (WithBot.coe_le_coe.mp hle) (by decide)

end FerriSync
