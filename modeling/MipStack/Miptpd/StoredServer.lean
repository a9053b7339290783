import MipStack.Miptpd.Server
import MipStack.Miptpd.Storage

/-!
# miptpd in memory (`miptp_server.c` over `miptp_app_controller.c` and `list.c`)

* `StoredMiptpd`         the daemon with its connections in memory;
* `StoredMiptpd.handleEvent`   what `MIPTPServer.handleEvent` does, on nodes and blocks;
* `KeepsMiptpd`          the daemon of `Server.lean`; of the memory, only the nodes and blocks of its
                         connections have been taken;
* `stored_miptpd_refines`   **in every run the two daemons send the same and end the same way**; no
                         node or connection is used that is not allocated, freed twice or lost;
* `handleCompletes_traps`   the handler that the daemon never calls would read a freed node, in every
                         state it can reach with a complete connection.

In this memory there are the list nodes and the connections.  What the data pointer of a message
from mipd leads to is given from outside, and client packages and packages, which are never freed,
are values.
-/

set_option linter.unusedSectionVars false

namespace MipStack
open Library Library.Linked

variable {κ α : Type} [DecidableEq κ] [DecidableEq α]

structure StoredMiptpd (κ α : Type) where
  running : Bool
  controller : StoredController κ
  memory : ConnectionMemory κ α

namespace StoredMiptpd

def create (m : ConnectionMemory κ α) : StoredMiptpd κ α := ⟨true, StoredController.create, m⟩

/-- the check after a handler has returned -/
def checkRc (s : StoredMiptpd κ α) (result : StoredController.Result κ α) :
    Except Fault (StoredMiptpd κ α) :=
  if result.1 ≠ -1 then
    .ok { s with controller := { s.controller with connections := result.2.1 }, memory := result.2.2 }
  else .error .errorExit

def handleMipdData (s : StoredMiptpd κ α) (buffer : List UInt8) (memory : ℕ → List UInt8)
    (fuel : ℕ) : Except Trap (Except Fault (StoredMiptpd κ α)) :=
  let dataSize := UInt16.ofNat (ofLe ((buffer.drop 2).take 2))
  let data := memory (ofLe ((buffer.drop 8).take 8))
  (s.controller.handleMipdPackage s.memory (buffer.headD 0) dataSize data fuel).map fun r =>
    r.bind fun result => s.checkRc (result.1, s.controller.connections, result.2)

/-- bytes of the client on the socket, or its end -/
def handleApplication (s : StoredMiptpd κ α) (alloc : ConnectionAllocation κ α) (socket : ℕ)
    (bytes : ReadBytes) (now : ℤ) (fuel : ℕ) : Except Trap (Except Fault (StoredMiptpd κ α)) :=
  if bytes.1.length = 0 then
    (s.controller.disconnect s.memory socket fuel).map s.checkRc
  else
    (s.controller.handleAppPackage s.memory alloc socket bytes.readBuffer now fuel).map fun r =>
      r.bind s.checkRc

def handleConnect (s : StoredMiptpd κ α) (alloc : ConnectionAllocation κ α) (newSocket : ℕ) :
    Except Trap (Except Fault (StoredMiptpd κ α)) :=
  (s.controller.handleConnection s.memory alloc newSocket).map fun
    | none => .error .errorExit
    | some r => .ok { s with controller := { s.controller with connections := r.1 }, memory := r.2 }

/-- the server after the event, and the messages sent to mipd -/
def handleEvent (s : StoredMiptpd κ α) (alloc : ConnectionAllocation κ α) (fuel : ℕ) :
    MIPTPEvent → Except Trap (Except Fault (StoredMiptpd κ α × List MIPDMessage))
  | .poll => (s.controller.handleOutgoing s.memory fuel).map fun r =>
      r.map fun x => ({ s with memory := x.2 }, x.1)
  | .mipd bytes memory =>
    if bytes.1.length = 0 then .ok (.ok ({ s with running := false }, []))
    else (s.handleMipdData bytes.readBuffer memory fuel).map fun r => r.map fun s => (s, [])
  | .connect newSocket => (s.handleConnect alloc newSocket).map fun r => r.map fun s => (s, [])
  | .application socket bytes now => do
    let known ← s.controller.isAConnection s.memory socket fuel
    if known then
      (s.handleApplication alloc socket bytes now fuel).map fun r => r.map fun s => (s, [])
    else .ok (.ok (s, []))
  | .stdin bytes =>
    if bytes.readBuffer.take 5 = MIPTPServer.stopCommand then
      .ok (.ok ({ s with running := false }, []))
    else .ok (.ok (s, []))

/-- one event after the other, each with its own allocation, up to a fault; what has been sent by
then -/
def serve (fuel : ℕ) : List (MIPTPEvent × ConnectionAllocation κ α) → StoredMiptpd κ α →
    Except Trap (Except Fault (StoredMiptpd κ α) × List MIPDMessage)
  | [], s => .ok (.ok s, [])
  | ev :: events, s => do
    let r ← s.handleEvent ev.2 fuel ev.1
    match r with
    | .error f => .ok (.error f, [])
    | .ok r => do
      let u ← serve fuel events r.1
      .ok (u.1, r.2 ++ u.2)

end StoredMiptpd

/-- the same for the daemon of `Server.lean` -/
def MIPTPServer.serve : List MIPTPEvent → MIPTPServer → Except Fault MIPTPServer × List MIPDMessage
  | [], s => (.ok s, [])
  | ev :: events, s =>
    match s.handleEvent ev with
    | .error f => (.error f, [])
    | .ok r => ((serve events r.1).1, r.2 ++ (serve events r.1).2)

/-! ## how many connections there are -/

/-- the number of clients among the events -/
def connects : List MIPTPEvent → ℕ
  | [] => 0
  | .connect _ :: events => connects events + 1
  | _ :: events => connects events

theorem MIPTPAppController.length_handleOutgoing {C C' : MIPTPAppController}
    {messages : List MIPDMessage} (h : C.handleOutgoing = .ok (C', messages)) :
    C'.connections.length = C.connections.length := by
  have houtgoing := outgoing_eq_visitAll C.connections []
  cases ho : outgoing C.connections with
  | error f =>
    rw [handleOutgoing, ho] at h
    cases h
  | ok r =>
    rw [ho] at houtgoing
    rw [handleOutgoing, ho] at h
    obtain ⟨rfl, _⟩ := Prod.mk.inj (Except.ok.inj h)
    exact length_visitAll houtgoing.symm

theorem MIPTPAppController.length_handleMipdPackage {C C' : MIPTPAppController} {rc : ℤ}
    {mipAddress : MIPAddress} {dataSize : UInt16} {data : List UInt8}
    (h : C.handleMipdPackage mipAddress dataSize data = .ok (rc, C')) :
    C'.connections.length = C.connections.length := by
  rw [handleMipdPackage] at h
  cases hp : MIPTPPackage.deserialize data dataSize with
  | error f =>
    rw [hp] at h
    cases h
  | ok package =>
    rw [hp] at h
    dsimp only at h
    rw [deliver_eq_visitAll, map_map_except] at h
    cases hv : visitAll (receiveVisit mipAddress package) C.connections 1 with
    | error f =>
      rw [hv] at h
      cases h
    | ok r =>
      rw [hv] at h
      obtain ⟨_, rfl⟩ := Prod.mk.inj (Except.ok.inj h)
      exact length_visitAll hv

theorem MIPTPAppController.length_handleAppPackage {C C' : MIPTPAppController} {rc now : ℤ}
    {socket : ℕ} {sPackage : List UInt8}
    (h : C.handleAppPackage socket sPackage now = .ok (rc, C')) :
    C'.connections.length = C.connections.length := by
  obtain ⟨package, hp⟩ := exists_deserialize_of_handleAppPackage h
  rcases handleAppPackage_cases hp C socket now with hc | ⟨hc, _⟩ | ⟨c, complete, hlookup, hreq, hc⟩
  · rw [hc] at h
    obtain ⟨_, rfl⟩ := Prod.mk.inj (Except.ok.inj h)
    rfl
  · rw [hc] at h
    obtain ⟨_, rfl⟩ := Prod.mk.inj (Except.ok.inj h)
    rfl
  · rw [hc] at h
    obtain ⟨_, rfl⟩ := Prod.mk.inj (Except.ok.inj h)
    obtain rfl := (AppConnection.create_eq_some hreq).1
    have hperm := (map_put_perm hlookup).length_eq
    rwa [List.length_map, List.length_map] at hperm

/-! ## the two daemons -/

theorem MIPTPServer.handleMipdData_eq (s : MIPTPServer) (buffer : List UInt8)
    (memory : ℕ → List UInt8) : s.handleMipdData buffer memory
      = (s.appController.handleMipdPackage (buffer.headD 0)
          (UInt16.ofNat (ofLe ((buffer.drop 2).take 2)))
          (memory (ofLe ((buffer.drop 8).take 8)))).bind s.checkRc := by
  rw [handleMipdData]
  generalize s.appController.handleMipdPackage _ _ _ = r
  cases r with
  | error f => rfl
  | ok result => rfl

theorem MIPTPServer.handleEvent_application_eq {s : MIPTPServer} {socket : ℕ}
    (hconn : s.appController.isAConnection socket = true) {bytes : ReadBytes}
    (hlen : bytes.1.length ≠ 0) (now : ℤ) : s.handleEvent (.application socket bytes now)
      = ((s.appController.handleAppPackage socket bytes.readBuffer now).bind s.checkRc).map
          fun s => (s, []) := by
  rw [handleEvent_application hconn hlen]
  generalize s.appController.handleAppPackage socket bytes.readBuffer now = r
  cases r with
  | error f => rfl
  | ok result => rfl

/-- `s` is the daemon `S`; since the memory was `m`, only the nodes and blocks of the connections have
been taken -/
structure KeepsMiptpd (m : ConnectionMemory κ α) (s : StoredMiptpd κ α) (S : MIPTPServer) : Prop where
  running : s.running = S.running
  connections : ∃ cells, HoldsConnections s.memory s.controller cells S.appController ∧
    m.Frame s.memory [] cells

variable {m : ConnectionMemory κ α} {s : StoredMiptpd κ α} {S : MIPTPServer}
  {alloc : ConnectionAllocation κ α} {fuel : ℕ} {cells : List (ConnectionCell κ α)}

namespace KeepsMiptpd

theorem created (m : ConnectionMemory κ α) : KeepsMiptpd m (StoredMiptpd.create m) MIPTPServer.create :=
  ⟨rfl, [], ⟨stores_create m, rfl, rfl, rfl⟩, Memory.Frame.refl m []⟩

theorem length_eq {c : StoredController κ} {C : MIPTPAppController}
    (hh : HoldsConnections m c cells C) : cells.length = C.connections.length := by
  rw [← hh.connections, List.length_map]

/-- a handler has run -/
theorem became {C' : MIPTPAppController} {list : CList κ} {m' : ConnectionMemory κ α}
    (hk : KeepsMiptpd m s S) (hf : m.Frame s.memory [] cells)
    (hb : BecameConnections s.memory cells s.controller C' list m') :
    KeepsMiptpd m { s with controller := { s.controller with connections := list }, memory := m' }
      { S with appController := C' } := by
  obtain ⟨cells', hh', hf'⟩ := hb
  exact ⟨hk.running, cells', hh', hf.trans hf'⟩

/-- the two checks of a return code agree -/
theorem checkRc {rc : ℤ} {C' : MIPTPAppController} {list : CList κ} {m' : ConnectionMemory κ α}
    {n : ℕ} (hk : KeepsMiptpd m s S) (hf : m.Frame s.memory [] cells)
    (hb : BecameConnections s.memory cells s.controller C' list m') (hlen : C'.connections.length ≤ n) :
    Agree (fun S' s' => KeepsMiptpd m s' S' ∧ S'.connections.length ≤ n)
      (S.checkRc (rc, C')) (s.checkRc (rc, list, m')) := by
  rw [MIPTPServer.checkRc, StoredMiptpd.checkRc]
  by_cases hrc : rc ≠ -1
  · rw [if_pos hrc, if_pos hrc]
    exact Or.inr ⟨_, _, rfl, rfl, hk.became hf hb, hlen⟩
  · rw [if_neg hrc, if_neg hrc]
    exact Or.inl ⟨_, rfl, rfl⟩

theorem handleMipdData (buffer : List UInt8) (memory : ℕ → List UInt8) (hk : KeepsMiptpd m s S)
    (hfuel : S.connections.length < fuel) :
    ∃ r, s.handleMipdData buffer memory fuel = .ok r ∧
      Agree (fun S' s' => KeepsMiptpd m s' S' ∧ S'.connections.length ≤ S.connections.length)
        (S.handleMipdData buffer memory) r := by
  obtain ⟨cells, hh, hf⟩ := hk.connections
  obtain ⟨r, hrun, hagree⟩ := hh.handleMipdPackage_spec (buffer.headD 0)
    (UInt16.ofNat (ofLe ((buffer.drop 2).take 2))) (memory (ofLe ((buffer.drop 8).take 8)))
    (by rwa [length_eq hh])
  refine ⟨_, by rw [StoredMiptpd.handleMipdData, hrun]; rfl, ?_⟩
  rw [MIPTPServer.handleMipdData_eq]
  refine hagree.bind ?_
  rintro ⟨rc, C'⟩ ⟨_, m'⟩ hC ⟨rfl, hb⟩
  exact hk.checkRc hf hb (MIPTPAppController.length_handleMipdPackage hC).le

/-- the client on the socket has written something, or has gone -/
theorem handleApplication (socket : ℕ) (bytes : ReadBytes) (now : ℤ) (hk : KeepsMiptpd m s S)
    (hroomy : m.Roomy) (halloc : alloc.Lawful) (hfuel : S.connections.length < fuel)
    (hconn : S.appController.isAConnection socket = true) :
    ∃ r, s.handleApplication alloc socket bytes now fuel = .ok r ∧
      Agree (fun S' s' => S'.2 = [] ∧ KeepsMiptpd m s' S'.1 ∧
          S'.1.connections.length ≤ S.connections.length)
        (S.handleEvent (.application socket bytes now)) r := by
  obtain ⟨cells, hh, hf⟩ := hk.connections
  have hn : cells.length < fuel := by rwa [length_eq hh]
  rw [StoredMiptpd.handleApplication]
  by_cases hlen : bytes.1.length = 0
  · obtain ⟨rc, list, m', hrun, hrc, hb⟩ := hh.disconnect_spec socket hn
    rw [MIPTPServer.handleEvent, if_pos hconn, if_pos hlen, if_pos hlen, hrun]
    refine ⟨_, rfl, Or.inr ⟨_, _, rfl, if_pos hrc, rfl, hk.became hf hb, ?_⟩⟩
    exact (erase_sublist AppConnection.socket socket S.connections).length_le
  · obtain ⟨r, hrun, hagree⟩ := hh.handleAppPackage_spec socket bytes.readBuffer now
      (hf.roomy hroomy) halloc hn
    rw [if_neg hlen, hrun, MIPTPServer.handleEvent_application_eq hconn hlen]
    have hchecked : Agree (fun S' s' => KeepsMiptpd m s' S' ∧
        S'.connections.length ≤ S.connections.length)
        ((S.appController.handleAppPackage socket bytes.readBuffer now).bind S.checkRc)
        (r.bind s.checkRc) := by
      refine hagree.bind ?_
      rintro ⟨rc, C'⟩ ⟨_, list, m'⟩ hC ⟨rfl, hb⟩
      exact hk.checkRc hf hb (MIPTPAppController.length_handleAppPackage hC).le
    exact ⟨_, rfl, hchecked.map_left fun S' s' h => ⟨rfl, h⟩⟩

/-- **What one event does to the two daemons.** -/
theorem handleEvent (ev : MIPTPEvent) (hk : KeepsMiptpd m s S) (hroomy : m.Roomy)
    (halloc : alloc.Lawful) (hfuel : S.connections.length < fuel) :
    ∃ r, s.handleEvent alloc fuel ev = .ok r ∧
      Agree (fun S' s' => S'.2 = s'.2 ∧ KeepsMiptpd m s'.1 S'.1 ∧
          S'.1.connections.length ≤ S.connections.length + connects [ev]) (S.handleEvent ev) r := by
  obtain ⟨cells, hh, hf⟩ := hk.connections
  have hn : cells.length < fuel := by rwa [length_eq hh]
  cases ev with
  | poll =>
    obtain ⟨r, hrun, hagree⟩ := hh.handleOutgoing_spec hn
    rw [StoredMiptpd.handleEvent, hrun]
    refine ⟨_, rfl, ?_⟩
    rcases hagree with ⟨f, hS, rfl⟩ | ⟨⟨C', sent⟩, ⟨_, m'⟩, hS, rfl, rfl, hb⟩
    · exact Or.inl ⟨f, by rw [MIPTPServer.handleEvent, hS]; rfl, rfl⟩
    · refine Or.inr ⟨_, _, by rw [MIPTPServer.handleEvent, hS]; rfl, rfl, rfl, hk.became hf hb, ?_⟩
      exact (MIPTPAppController.length_handleOutgoing hS).le
  | mipd bytes memory =>
    rw [StoredMiptpd.handleEvent, MIPTPServer.handleEvent]
    by_cases hlen : bytes.1.length = 0
    · rw [if_pos hlen, if_pos hlen]
      exact ⟨_, rfl, Or.inr ⟨_, _, rfl, rfl, rfl, ⟨rfl, cells, hh, hf⟩, Nat.le_refl _⟩⟩
    · obtain ⟨r, hrun, hagree⟩ := hk.handleMipdData bytes.readBuffer memory hfuel
      rw [if_neg hlen, if_neg hlen, hrun]
      refine ⟨_, rfl, ?_⟩
      rcases hagree with ⟨f, hS, rfl⟩ | ⟨S', s', hS, rfl, hk', hle⟩
      · rw [hS]
        exact Or.inl ⟨f, rfl, rfl⟩
      · rw [hS]
        exact Or.inr ⟨_, _, rfl, rfl, rfl, hk', hle⟩
  | connect newSocket =>
    obtain ⟨list, m', C', hrun, hC, hb, hlen⟩ :=
      hh.handleConnection_spec newSocket (hf.roomy hroomy) halloc
    rw [StoredMiptpd.handleEvent, StoredMiptpd.handleConnect, hrun, MIPTPServer.handleEvent, hC]
    exact ⟨_, rfl, Or.inr ⟨_, _, rfl, rfl, rfl, hk.became hf hb, hlen.le⟩⟩
  | application socket bytes now =>
    rw [StoredMiptpd.handleEvent, hh.isAConnection_spec socket hn]
    by_cases hconn : S.appController.isAConnection socket = true
    · obtain ⟨r, hrun, hagree⟩ := hk.handleApplication socket bytes now hroomy halloc hfuel hconn
      rw [hconn]
      show ∃ r, Except.map _ (s.handleApplication alloc socket bytes now fuel) = _ ∧ _
      rw [hrun]
      refine ⟨_, rfl, ?_⟩
      rcases hagree with ⟨f, hS, rfl⟩ | ⟨S', s', hS, rfl, hsent, hk', hle⟩
      · exact Or.inl ⟨f, hS, rfl⟩
      · exact Or.inr ⟨_, _, hS, rfl, hsent, hk', hle⟩
    · rw [MIPTPServer.handleEvent, if_neg hconn, Bool.eq_false_iff.mpr hconn]
      exact ⟨_, rfl, Or.inr ⟨_, _, rfl, rfl, rfl, hk, Nat.le_refl _⟩⟩
  | stdin bytes =>
    rw [StoredMiptpd.handleEvent, MIPTPServer.handleEvent]
    by_cases hstop : bytes.readBuffer.take 5 = MIPTPServer.stopCommand
    · rw [if_pos hstop, if_pos hstop]
      exact ⟨_, rfl, Or.inr ⟨_, _, rfl, rfl, rfl, ⟨rfl, cells, hh, hf⟩, Nat.le_refl _⟩⟩
    · rw [if_neg hstop, if_neg hstop]
      exact ⟨_, rfl, Or.inr ⟨_, _, rfl, rfl, rfl, hk, Nat.le_refl _⟩⟩

/-- a run of the two daemons -/
theorem serve {events : List (MIPTPEvent × ConnectionAllocation κ α)} (hk : KeepsMiptpd m s S)
    (hroomy : m.Roomy) (halloc : ∀ ev ∈ events, ev.2.Lawful)
    (hfuel : S.connections.length + connects (events.map Prod.fst) < fuel) :
    ∃ last, s.serve fuel events = .ok (last, (S.serve (events.map Prod.fst)).2) ∧
      Agree (fun S' s' => KeepsMiptpd m s' S' ∧
          S'.connections.length ≤ S.connections.length + connects (events.map Prod.fst))
        (S.serve (events.map Prod.fst)).1 last := by
  induction events generalizing s S with
  | nil => exact ⟨.ok s, rfl, Or.inr ⟨S, s, rfl, rfl, hk, Nat.le_refl _⟩⟩
  | cons ev events ih =>
    have hsplit : connects ((ev :: events).map Prod.fst)
        = connects [ev.1] + connects (events.map Prod.fst) := by
      rw [List.map_cons]
      cases ev.1 with
      | connect newSocket => exact Nat.add_comm _ _
      | poll => exact (Nat.zero_add _).symm
      | mipd bytes memory => exact (Nat.zero_add _).symm
      | application socket bytes now => exact (Nat.zero_add _).symm
      | stdin bytes => exact (Nat.zero_add _).symm
    rw [hsplit] at hfuel ⊢
    have hlt : S.connections.length < fuel := by omega
    obtain ⟨r, hrun, hagree⟩ := hk.handleEvent ev.1 hroomy (halloc ev List.mem_cons_self) hlt
    rw [StoredMiptpd.serve, List.map_cons, MIPTPServer.serve, hrun]
    rcases hagree with ⟨f, hS, rfl⟩ | ⟨⟨S', sent⟩, ⟨s', sent'⟩, hS, rfl, hsent, hk', hle⟩
    · rw [hS]
      exact ⟨.error f, rfl, Or.inl ⟨f, rfl, rfl⟩⟩
    · obtain rfl := hsent
      dsimp only at hk' hle
      obtain ⟨last, hrun', hagree'⟩ := ih hk' (fun x hx => halloc x (List.mem_cons_of_mem ev hx))
        (by omega)
      rw [hS]
      refine ⟨last, ?_, ?_⟩
      · show (s'.serve fuel events >>= _) = _
        rw [hrun']
        rfl
      · rcases hagree' with ⟨f, hS', rfl⟩ | ⟨S2, s2, hS', rfl, hk2, hle2⟩
        · exact Or.inl ⟨f, hS', rfl⟩
        · exact Or.inr ⟨S2, s2, hS', rfl, hk2, by omega⟩

end KeepsMiptpd

/-- **In every run from its start the daemon in memory sends what the daemon of `Server.lean` sends
and ends where that one ends**, with the connections of that one in the only nodes and blocks that
it has taken; it never uses a node or a connection that is not allocated, and every loop ends. -/
theorem stored_miptpd_refines {events : List (MIPTPEvent × ConnectionAllocation κ α)}
    (hroomy : m.Roomy) (halloc : ∀ ev ∈ events, ev.2.Lawful)
    (hfuel : connects (events.map Prod.fst) < fuel) :
    ∃ last, (StoredMiptpd.create m).serve fuel events
        = .ok (last, (MIPTPServer.create.serve (events.map Prod.fst)).2) ∧
      Agree (fun S s => s.running = S.running ∧ ∃ cells, m.Frame s.memory [] cells ∧
          HoldsConnections s.memory s.controller cells S.appController)
        (MIPTPServer.create.serve (events.map Prod.fst)).1 last := by
  have hlt : MIPTPServer.create.connections.length + connects (events.map Prod.fst) < fuel := by
    show 0 + _ < fuel
    rwa [Nat.zero_add]
  obtain ⟨last, hrun, hagree⟩ := (KeepsMiptpd.created m).serve hroomy halloc hlt
  refine ⟨last, hrun, ?_⟩
  rcases hagree with ⟨f, hS, rfl⟩ | ⟨S, s, hS, rfl, hk, _⟩
  · exact Or.inl ⟨f, hS, rfl⟩
  · obtain ⟨cells, hh, hf⟩ := hk.connections
    exact Or.inr ⟨S, s, hS, rfl, hk.running, cells, hf, hh⟩

/-- **In every state that the daemon reaches, the handler it never calls reads a freed node if there
is a complete connection**, and leaves everything as it is otherwise. -/
theorem handleCompletes_traps {events : List (MIPTPEvent × ConnectionAllocation κ α)}
    (hroomy : m.Roomy) (halloc : ∀ ev ∈ events, ev.2.Lawful)
    (hfuel : connects (events.map Prod.fst) < fuel)
    (hserve : (MIPTPServer.create.serve (events.map Prod.fst)).1 = .ok S) :
    ∃ s sent, (StoredMiptpd.create m).serve fuel events = .ok (.ok s, sent) ∧
      s.controller.handleCompletes s.memory fuel =
        if ∃ connection ∈ S.connections, connection.isComplete = true then .error .dangling
        else .ok (s.controller.connections, s.memory) := by
  have hlt : MIPTPServer.create.connections.length + connects (events.map Prod.fst) < fuel := by
    show 0 + _ < fuel
    rwa [Nat.zero_add]
  obtain ⟨last, hrun, hagree⟩ := (KeepsMiptpd.created m).serve hroomy halloc hlt
  rcases hagree with ⟨f, hS, rfl⟩ | ⟨S', s, hS, rfl, hk, hle⟩
  · rw [hS] at hserve
    cases hserve
  · obtain rfl : S' = S := Except.ok.inj (hS.symm.trans hserve)
    obtain ⟨cells, hh, _⟩ := hk.connections
    refine ⟨s, _, hrun, hh.handleCompletes_spec ?_⟩
    rw [KeepsMiptpd.length_eq hh]
    exact Nat.lt_of_le_of_lt hle hlt

/-- any package to its port completes a job of one package -/
def confirmBytes : ReadBytes := ⟨[5, 0, 4, 0], by decide⟩

/-- a client connects and sends two bytes, and their package is confirmed -/
noncomputable def confirmedEvents : List (MIPTPEvent × ConnectionAllocation ℕ ℕ) :=
  [(.connect 7, .smallest _), (.application 7 senderBytes 0, .smallest _), (.poll, .smallest _),
    (.mipd confirmBytes fun _ => MIPTPHeader.toBytes ⟨0, 10, 0⟩, .smallest _)]

theorem lawful_confirmedEvents : ∀ ev ∈ confirmedEvents, ev.2.Lawful := by
  intro ev hev
  simp only [confirmedEvents, List.mem_cons, List.not_mem_nil, or_false] at hev
  rcases hev with rfl | rfl | rfl | rfl
  · exact Allocation.smallest_lawful _
  · exact Allocation.smallest_lawful _
  · exact Allocation.smallest_lawful _
  · exact Allocation.smallest_lawful _

theorem exists_serve_cons {ev : MIPTPEvent} {S' : MIPTPServer}
    (h : (S.handleEvent ev).map Prod.fst = .ok S') (events : List MIPTPEvent) :
    ∃ sent, S.serve (ev :: events) = ((S'.serve events).1, sent ++ (S'.serve events).2) := by
  rw [MIPTPServer.serve]
  cases hev : S.handleEvent ev with
  | error f =>
    rw [hev] at h
    cases h
  | ok r =>
    rw [hev] at h
    obtain rfl := Except.ok.inj h
    exact ⟨r.2, rfl⟩

theorem serve_cons_fst {ev : MIPTPEvent} {S' : MIPTPServer} {events : List MIPTPEvent}
    (h : (S.handleEvent ev).map Prod.fst = .ok S') : (S.serve (ev :: events)).1 = (S'.serve events).1 := by
  obtain ⟨sent, hserve⟩ := exists_serve_cons h events
  rw [hserve]

theorem serve_confirmedEvents : (MIPTPServer.create.serve (confirmedEvents.map Prod.fst)).1
    = .ok ⟨true, ⟨[{ twoBytesSender with status := .CONN_COMPLETE }], 10, 0⟩⟩ := by
  have hconnect : (MIPTPServer.create.handleEvent (.connect 7)).map Prod.fst = .ok oneClient := rfl
  have hpoll : (oneSender.handleEvent .poll).map Prod.fst = .ok oneSender := rfl
  have hconfirm : (oneSender.handleEvent (.mipd confirmBytes fun _ =>
      MIPTPHeader.toBytes ⟨0, 10, 0⟩)).map Prod.fst
      = .ok ⟨true, ⟨[{ twoBytesSender with status := .CONN_COMPLETE }], 10, 0⟩⟩ := rfl
  show (MIPTPServer.create.serve (_ :: _ :: _ :: _ :: [])).1 = _
  rw [serve_cons_fst hconnect,
    serve_cons_fst (congrArg (Except.map Prod.fst) handleEvent_senderBytes), serve_cons_fst hpoll,
    serve_cons_fst hconfirm]
  rfl

theorem stored_miptpd_refines_confirmed : ∃ last,
    (StoredMiptpd.create (Memory.empty _)).serve 2 confirmedEvents
      = .ok (last, (MIPTPServer.create.serve (confirmedEvents.map Prod.fst)).2) := by
  obtain ⟨last, hrun, _⟩ := stored_miptpd_refines (Memory.roomy_empty _) lawful_confirmedEvents
    (Nat.lt_succ_self 1)
  exact ⟨last, hrun⟩

theorem handleCompletes_traps_confirmed : ∃ (s : StoredMiptpd ℕ ℕ) (sent : List MIPDMessage),
    (StoredMiptpd.create (Memory.empty _)).serve 2 confirmedEvents = .ok (.ok s, sent) ∧
    s.controller.handleCompletes s.memory 2 = .error .dangling := by
  obtain ⟨s, sent, hrun, htrap⟩ := handleCompletes_traps (Memory.roomy_empty _)
    lawful_confirmedEvents (Nat.lt_succ_self 1) serve_confirmedEvents
  refine ⟨s, sent, hrun, ?_⟩
  rw [htrap]
  exact if_pos ⟨_, List.mem_singleton_self _, rfl⟩

end MipStack
