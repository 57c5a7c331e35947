/-
# The server returns before the client has read

The server leaves its receive loop at the client's sentinel, and the client
writes its sentinel before it reads anything but the index. Then the server
discards what still comes, for a while that may be shorter than the client's
push phase takes to be followed by its first read, and returns; the connection
is dropped with the server's files still on the way.

So a server that has a file to push may return before the client has received
it (`server_returns_first`), and it is only by having nothing to push that it
never does (`returns_after_client_iff`).

Key definitions: `Party.acknowledged`.
Key theorems: `server_returns_first`, `returns_after_client_iff`.
-/
import FerriSync.Converge

namespace FerriSync

open Machine

/-- The file has been committed, and its Ack written. -/
def Party.acknowledged (p : Party) (path : String) : Prop :=
  path ∈ p.committed.map (·.1) ∧ ∀ a ∈ p.todo, a ≠ .write (.ack ⟨path, true, none⟩)

/-- When the server has returned, the client has received and acknowledged all
that the server pushed, whenever the final drains end. -/
def Ends.ReturnsAfterClient (e : Ends) : Prop :=
  ∀ x, HastyReach (Party.next e.client) (Party.next e.server) e.start x →
    (∃ result, x.right.phase = .ended result) →
    ∀ y ∈ e.serverPlan.toPushToClient, x.left.acknowledged y.path

/-- **The server can return while the client has not read one of its files.** -/
theorem server_returns_first {e : Ends} (h : Regular e) : ∃ x,
    HastyReach (Party.next e.client) (Party.next e.server) e.start x ∧
      x.right.phase = .ended (.ok ()) ∧ x.left.committed = [] := by
  obtain ⟨xs, ys, hs⟩ := exists_sends h.toUndisturbed
  obtain ⟨p, hannounce, hready⟩ := client_announces h.toAnnounced
  have hclient := hready.trans (client_pushes h.toUndisturbed hs)
  have hserver := (server_announces h.toAnnounced).trans (server_pushes h.toUndisturbed hs)
  -- the server takes the client's push phase and leaves its loop
  obtain ⟨q, hq, hconv⟩ := server_hears h hs
  have hhears := hconv.does
  have hclosed : q.closed e.server = { q with gotEof := true, phase := .draining } := by
    simp only [Party.closed, h.serverRole]
  rw [asked_pushBlocks, replies_pushBlocks, hclosed] at hhears
  have hp := e.server_pushed ys
  have hsettle := (does_settle e.server hp.top.todo hp.top.phase).1
  have hleaves := hsettle.trans_nil hhears
  have hlast : Reach (Party.next e.client) (Party.next e.server)
      ⟨e.clientPushed xs, e.serverPushed ys, pushMessages e.client.folderIdStr xs,
        pushMessages e.server.folderIdStr ys⟩
      ⟨e.clientPushed xs, { q with gotEof := true, phase := .draining }, [],
        pushMessages e.server.folderIdStr ys ++ xs.map ackOf⟩ := by
    simpa using Reach.right hleaves (e.clientPushed xs) [] (pushMessages e.server.folderIdStr ys)
  have hreach : Reach (Party.next e.client) (Party.next e.server) e.start _ :=
    (((Reach.left hannounce _ [] []).trans (Reach.right hserver _ [] _)).trans
      (Reach.left hclient _ _ _)).trans hlast
  have hdrain : Party.next e.server { q with gotEof := true, phase := .draining } =
      .drain { q with gotEof := true, phase := .ended (.ok ()), stamped := true } := by
    simp only [Party.next, hq.top.todo]
  exact ⟨_, (HastyReach.of_reach hreach).tail (.stopRight hdrain), rfl, (e.client_pushed xs).committed⟩

/-- **The server never closes early exactly when it has nothing to push.** -/
theorem returns_after_client_iff (e : Ends) (h : Regular e) :
    e.ReturnsAfterClient ↔ e.serverPlan.toPushToClient = [] := by
  constructor
  · intro hreturns
    obtain ⟨x, hx, hended, hnone⟩ := server_returns_first h
    refine List.eq_nil_iff_forall_not_mem.mpr fun y hy => ?_
    obtain ⟨hin, -⟩ := hreturns x hx ⟨_, hended⟩ y hy
    rw [hnone] at hin
    exact absurd hin List.not_mem_nil
  · intro hnone x _ _ y hy
    rw [hnone] at hy
    exact absurd hy List.not_mem_nil

/-- Of two copies of `f` the server's is pushed. -/
theorem returns_after_client_two :
    (sampleEnds [(sampleName, [97])] [(sampleName, [98])]).ReturnsAfterClient ↔
      (sampleEnds [(sampleName, [97])] [(sampleName, [98])]).serverPlan.toPushToClient = [] :=
  returns_after_client_iff _ (regular_sampleEnds _ _ (by decide +kernel) (by decide +kernel)
    (by decide +kernel) (by decide +kernel))

/-- The server has one file and the client none. -/
theorem returns_before_client : ¬ (sampleEnds [] [(sampleName, [98])]).ReturnsAfterClient := by
  intro hreturns
  obtain ⟨x, hx, hended, hnone⟩ := server_returns_first (regular_sampleEnds [] [(sampleName, [98])]
    (by decide +kernel) (by decide +kernel) (by decide +kernel) (by decide +kernel))
  have hplan : (sampleEnds [] [(sampleName, [98])]).serverPlan.toPushToClient.length = 1 := by
    decide +kernel
  obtain ⟨y, hy⟩ := List.length_eq_one_iff.mp hplan
  obtain ⟨hin, -⟩ := hreturns x hx ⟨_, hended⟩ y (by rw [hy]; exact List.mem_singleton_self y)
  rw [hnone] at hin
  exact absurd hin List.not_mem_nil

end FerriSync
