import MipStack.Commons.Records
import MipStack.Miptpd.Completion

/-!
# The connections of miptpd in memory (`miptp_app_controller.c` over `list.c`)

Two handlers take a node out of the list while they go through it, and leave the loop at once; a
third one goes on.

* `StoredController`     the structure of the source, with a `CList` for its connections;
* `StoredController.handleAppPackage`, `.disconnect`, …   the handlers on nodes and blocks;
* `HoldsConnections`     nodes and blocks that are the connections of a `MIPTPAppController`;
* `replace_spec`         a connection makes way for another one;
* `handleAppPackage_spec`, `disconnect_spec`, `handleConnection_spec`, `handleMipdPackage_spec`,
  `handleOutgoing_spec`   **each does in memory what its namesake does to the list of connections**;
* `handleCompletes_spec`   **the loop that goes on reads a node that has been freed**, exactly where
                         a connection is complete.

A connection is one block, with its job; the packages on their way to mipd are not in memory here.
-/

set_option linter.unusedSectionVars false

namespace MipStack
open Library Library.Linked

abbrev ConnectionMemory (κ α : Type) := Memory κ α AppConnection
abbrev ConnectionAllocation (κ α : Type) := Allocation κ α AppConnection
abbrev ConnectionCell (κ α : Type) := Cell κ α AppConnection

structure StoredController (κ : Type) where
  connections : CList κ
  maxConnections : ℕ
  timeout : ℕ
  deriving DecidableEq

variable {κ α : Type} [DecidableEq κ] [DecidableEq α]

/-! ## the handlers -/

/-- one connection and a package from mipd -/
def receiveVisit (sender : MIPAddress) (package : MIPTPPackage) (connection : AppConnection)
    (rc : ℤ) : Except Fault (AppConnection × ℤ × Bool) :=
  if connection.port = package.miptpHeader.port then
    (connection.receivePackage sender package).map fun r =>
      if r.1 = -1 then (r.2, -1, true) else (r.2, rc, false)
  else .ok (connection, rc, false)

/-- one connection and the packages of its window -/
def outgoingVisit (connection : AppConnection) (sent : List MIPDMessage) :
    Except Fault (AppConnection × List MIPDMessage × Bool) :=
  match connection.nextPackages with
  | .error f => .error f
  | .ok (none, _) => .error .errorExit
  | .ok (some packages, connection) =>
    (MIPTPAppController.packageMessages connection.connectedMip packages).map fun messages =>
      (connection, sent ++ messages, false)

namespace StoredController

def create : StoredController κ := ⟨CList.create, MIPTPAppController.MAX_APP_CONNECTIONS, 0⟩

/-- what a handler has changed: return code, list and memory -/
abbrev Result (κ α : Type) := ℤ × CList κ × ConnectionMemory κ α

/-- the connection with the socket makes way for the new one, and the loop is left -/
def replace (alloc : ConnectionAllocation κ α) (socket : ℕ) (complete : Option AppConnection)
    (cur : κ) (block : α) (connection : AppConnection) (s : Result κ α) :
    Except Trap (Result κ α × Bool) :=
  if connection.socket = socket then
    match complete, alloc.block 0 s.2.2.records with
    | some complete, some new => do
      let r ← s.2.1.remove s.2.2.nodes (some cur)
      let records ← Heap.free (s.2.2.records.write new (some complete)) (some block)
      let p ← r.2.1.push r.1 (alloc.node 0 r.1) (some new)
      .ok ((1, p.2, ⟨p.1, records⟩), true)
    | _, _ => .ok ((-1, s.2), true)
  else .ok (s, false)

def handleAppPackage (c : StoredController κ) (m : ConnectionMemory κ α)
    (alloc : ConnectionAllocation κ α) (socket : ℕ) (sPackage : List UInt8) (now : ℤ) (fuel : ℕ) :
    Except Trap (Except Fault (Result κ α)) :=
  match ClientPackage.deserialize sPackage with
  | .error f => .ok (.error f)
  | .ok package =>
    if package.port > 0 ∧ package.destination > 0 then
      (scan (fun s => s.2.2) (fun s => .ok ((-1, s.2), true)) (replace alloc socket
        (AppConnection.create (connectionType package.type) socket package.port package.destination
          package.data c.timeout now)) c.connections fuel (1, c.connections, m)).map
        fun s => .ok s.1
    else .ok (.ok (-1, c.connections, m))

/-- `none` for the return value -1 -/
def handleConnection (c : StoredController κ) (m : ConnectionMemory κ α)
    (alloc : ConnectionAllocation κ α) (newSocket : ℕ) :
    Except Trap (Option (CList κ × ConnectionMemory κ α)) :=
  match AppConnection.createNotReady newSocket, alloc.block 0 m.records with
  | some connection, some block => do
    let p ← c.connections.push m.nodes (alloc.node 0 m.nodes) (some block)
    .ok (some (p.2, ⟨p.1, m.records.write block (some connection)⟩))
  | _, _ => .ok none

def isAConnection (c : StoredController κ) (m : ConnectionMemory κ α) (socket : ℕ) (fuel : ℕ) :
    Except Trap Bool :=
  (scan Prod.snd (fun s => .ok ((true, s.2), true))
    (fun _ _ connection s =>
      if connection.socket = socket then .ok ((true, s.2), true) else .ok (s, false))
    c.connections fuel (false, m)).map fun s => s.1.1

def disconnect (c : StoredController κ) (m : ConnectionMemory κ α) (socket : ℕ) (fuel : ℕ) :
    Except Trap (Result κ α) :=
  removeFirst (fun connection => decide (connection.socket = socket)) c.connections m fuel

def handleMipdPackage (c : StoredController κ) (m : ConnectionMemory κ α) (mipAddress : MIPAddress)
    (dataSize : UInt16) (data : List UInt8) (fuel : ℕ) :
    Except Trap (Except Fault (ℤ × ConnectionMemory κ α)) :=
  match MIPTPPackage.deserialize data dataSize with
  | .error f => .ok (.error f)
  | .ok package =>
    (visitRecords (receiveVisit mipAddress package) (-1) c.connections m 1 fuel).map fun s =>
      s.1.map fun rc => (rc, s.2)

def handleOutgoing (c : StoredController κ) (m : ConnectionMemory κ α) (fuel : ℕ) :
    Except Trap (Except Fault (List MIPDMessage × ConnectionMemory κ α)) :=
  (visitRecords outgoingVisit [] c.connections m [] fuel).map fun s => s.1.map fun sent => (sent, s.2)

/-- a complete connection is destroyed and its node removed, and the loop goes on -/
def complete (cur : κ) (block : α) (connection : AppConnection)
    (s : CList κ × ConnectionMemory κ α) : Except Trap ((CList κ × ConnectionMemory κ α) × Bool) :=
  if connection.isComplete then do
    let records ← s.2.records.free (some block)
    let r ← s.1.remove s.2.nodes (some cur)
    .ok ((r.2.1, ⟨r.1, records⟩), false)
  else .ok (s, false)

def handleCompletes (c : StoredController κ) (m : ConnectionMemory κ α) (fuel : ℕ) :
    Except Trap (CList κ × ConnectionMemory κ α) :=
  (scan Prod.snd (fun s => .ok (s, true)) complete c.connections fuel (c.connections, m)).map Prod.fst

end StoredController

/-! ## the same loops on the lists of `AppController.lean` -/

theorem deliver_eq_visitAll (sender : MIPAddress) (package : MIPTPPackage)
    (connections : List AppConnection) :
    MIPTPAppController.deliver sender package connections
      = (visitAll (receiveVisit sender package) connections 1).map fun r => (r.2, r.1) := by
  induction connections with
  | nil => rfl
  | cons c rest ih =>
    rw [MIPTPAppController.deliver, visitAll, receiveVisit]
    by_cases hport : c.port = package.miptpHeader.port
    · rw [if_pos hport, if_pos hport]
      cases hrec : c.receivePackage sender package with
      | error f => rfl
      | ok r =>
        obtain ⟨rc, c'⟩ := r
        by_cases hrc : rc = -1
        · obtain rfl := hrc
          rfl
        · simp only [Except.map, if_neg hrc, ih]
          cases visitAll (receiveVisit sender package) rest 1 with
          | error f => rfl
          | ok r => rfl
    · rw [if_neg hport, if_neg hport, ih]
      dsimp only
      cases visitAll (receiveVisit sender package) rest 1 with
      | error f => rfl
      | ok r => rfl

theorem outgoing_eq_visitAll (connections : List AppConnection) (sent : List MIPDMessage) :
    (MIPTPAppController.outgoing connections).map (fun r => (r.1, sent ++ r.2))
      = visitAll outgoingVisit connections sent := by
  induction connections generalizing sent with
  | nil => simp [MIPTPAppController.outgoing, visitAll, Except.map]
  | cons c rest ih =>
    rw [MIPTPAppController.outgoing, visitAll, outgoingVisit]
    cases hnext : c.nextPackages with
    | error f => rfl
    | ok r =>
      obtain ⟨packages, c'⟩ := r
      cases packages with
      | none => rfl
      | some packages =>
        dsimp only
        cases hmsg : MIPTPAppController.packageMessages c'.connectedMip packages with
        | error f => rfl
        | ok messages =>
          simp only [Except.map]
          rw [← ih (sent ++ messages)]
          cases MIPTPAppController.outgoing rest with
          | error f => rfl
          | ok r => simp [Except.map]

/-! ## what they do to nodes and blocks -/

/-- the nodes and blocks `cells` are the connections of the controller `C` -/
structure HoldsConnections (m : ConnectionMemory κ α) (c : StoredController κ)
    (cells : List (ConnectionCell κ α)) (C : MIPTPAppController) : Prop where
  stores : Stores m c.connections cells
  maxConnections : c.maxConnections = C.maxConnections
  timeout : c.timeout = C.timeout
  connections : cells.map Cell.record = C.connections

/-- a change of the blocks of the connections only, after which they are those of `C'` -/
def BecameConnections (m : ConnectionMemory κ α) (cells : List (ConnectionCell κ α))
    (c : StoredController κ) (C' : MIPTPAppController) (list : CList κ) (m' : ConnectionMemory κ α) :
    Prop :=
  ∃ cells', HoldsConnections m' { c with connections := list } cells' C' ∧ m.Frame m' cells cells'

variable {m : ConnectionMemory κ α} {c : StoredController κ} {cells rest : List (ConnectionCell κ α)}
  {x : ConnectionCell κ α} {C : MIPTPAppController} {alloc : ConnectionAllocation κ α} {fuel : ℕ}

namespace HoldsConnections

theorem same (hh : HoldsConnections m c cells C) : BecameConnections m cells c C c.connections m :=
  ⟨cells, hh, Memory.Frame.refl m _⟩

theorem isAConnection_spec (socket : ℕ) (hh : HoldsConnections m c cells C)
    (hn : cells.length < fuel) : c.isAConnection m socket fuel = .ok (C.isAConnection socket) := by
  have hlookup : C.isAConnection socket = cells.any fun x => decide (x.record.socket = socket) := by
    rw [MIPTPAppController.isAConnection, lookup, ← hh.connections, List.isSome_find?, List.any_map]
    rfl
  have hscan : ∃ left, scan Prod.snd (fun s => .ok ((true, s.2), true))
      (fun _ _ connection s =>
        if connection.socket = socket then .ok ((true, s.2), true) else .ok (s, false))
      c.connections fuel (false, m)
      = .ok ((cells.any fun x => decide (x.record.socket = socket), m), left) := by
    refine scan_rule (I := fun rest s => s = (false, m) ∧ ∃ done, cells = done ++ rest ∧
        ∀ x ∈ done, ¬ x.record.socket = socket)
      (P := fun r => ∃ left, r = .ok ((cells.any fun x => decide (x.record.socket = socket), m), left))
      ?_ ?_ ?_ hh.stores.nodes.first ⟨rfl, [], rfl, by simp⟩ hn
    · rintro x rest _ ⟨rfl, done, rfl, _⟩
      exact ⟨_, _, hh.stores.node_eq, hh.stores.record_eq⟩
    · rintro x rest _ ⟨rfl, done, rfl, hdone⟩
      split
      · rename_i hx
        refine .leave _ ⟨true, ?_⟩
        simp [hx]
      · rename_i hx
        refine .again _ _ ⟨rfl, done ++ [x], by simp, ?_⟩ hh.stores.node_eq rfl
        intro e he
        rcases List.mem_append.mp he with he | he
        · exact hdone e he
        · rwa [List.mem_singleton.mp he]
    · rintro _ ⟨rfl, done, hdone, hall⟩
      rw [List.append_nil] at hdone
      obtain rfl := hdone
      have hnone : (cells.any fun x => decide (x.record.socket = socket)) = false := by
        simpa using hall
      exact ⟨false, by rw [hnone]⟩
  obtain ⟨left, hrun⟩ := hscan
  rw [StoredController.isAConnection, hrun, hlookup]
  rfl

theorem disconnect_spec (socket : ℕ) (hh : HoldsConnections m c cells C) (hn : cells.length < fuel) :
    ∃ rc list m', c.disconnect m socket fuel = .ok (rc, list, m') ∧ rc ≠ -1 ∧
      BecameConnections m cells c (C.disconnect socket) list m' := by
  obtain ⟨⟨rc, list, m'⟩, hrun, hr⟩ :=
    removeFirst_spec (fun connection : AppConnection => decide (connection.socket = socket)) hh.stores hn
  refine ⟨rc, list, m', hrun, ?_, _, ⟨hr.stores, hh.maxConnections, hh.timeout, ?_⟩, hr.frame⟩
  · obtain rfl := hr.rc
    split
    · simp
    · simp
  · show _ = erase AppConnection.socket socket C.connections
    rw [erase, ← hh.connections, List.eraseP_map]
    rfl

/-- nobody in front of `rest` has the socket, and nothing has been done -/
def Seeking (m : ConnectionMemory κ α) (c : StoredController κ) (cells : List (ConnectionCell κ α))
    (socket : ℕ) (rest : List (ConnectionCell κ α)) (s : StoredController.Result κ α) : Prop :=
  s = (1, c.connections, m) ∧ ∃ done, cells = done ++ rest ∧ ∀ e ∈ done, e.record.socket ≠ socket

/-- the connection that is found makes way for the new one -/
theorem replace_spec {front : List (ConnectionCell κ α)} {complete : AppConnection} {socket : ℕ}
    (hh : HoldsConnections m c (front ++ x :: rest) C) (hroomy : m.Roomy) (halloc : alloc.Lawful)
    (hfront : ∀ e ∈ front, e.record.socket ≠ socket) (hx : x.record.socket = socket)
    (hcomplete : complete.socket = socket) :
    ∃ list m', StoredController.replace alloc socket (some complete) x.node x.block x.record
        (1, c.connections, m) = .ok ((1, list, m'), true) ∧
      BecameConnections m (front ++ x :: rest) c { C with
        connections := put AppConnection.socket complete C.connections } list m' := by
  obtain ⟨new, hnew, hb⟩ := halloc.block 0 m.records hroomy.records
  have hfresh := hh.stores.not_mem_of_free hb
  have hne : new ≠ x.block := fun h => hfresh (by simp [h])
  have hs1 := hh.stores.alloc complete hb
  have hfr1 : Heap.Frame m.records (m.records.write new (some complete))
      ((front ++ x :: rest).map Cell.block) ((front ++ x :: rest).map Cell.block ++ [new]) :=
    frame_alloc complete hb
  obtain ⟨h', list', hrem, hfree, _, hs2, hf2⟩ := hs1.drop
  have hroomy2 : Heap.Roomy h' := hf2.nodes.roomy hroomy.nodes
  obtain ⟨node, hnode, hfreeNode⟩ := halloc.node 0 h' hroomy2
  obtain ⟨h3, list3, hpush, hs3, hf3⟩ := hs2.push (c := ⟨node, new, complete⟩) hfreeNode
    ((Heap.write_of_ne _ hne).trans (Heap.write_self _)) fun hmem => hfresh (by
      rw [List.map_append] at hmem
      rw [List.map_append, List.map_cons, List.mem_append, List.mem_cons]
      exact (List.mem_append.mp hmem).imp_right Or.inr)
  refine ⟨list3, ⟨h3, (m.records.write new (some complete)).write x.block none⟩, ?_, _,
    ⟨hs3, hh.maxConnections, hh.timeout, ?_⟩, hf2.nodes.trans hf3, ?_⟩
  · simp only [StoredController.replace, if_pos hx, hnew]
    show (c.connections.remove m.nodes (some x.node) >>= _) = _
    rw [hrem]
    show (Heap.free (m.records.write new (some complete)) (some x.block) >>= _) = _
    rw [hfree]
    show (list'.push h' (alloc.node 0 h') (some new) >>= _) = _
    rw [hnode, hpush]
    rfl
  · have hconn := hh.connections
    rw [List.map_append, List.map_cons] at hconn
    rw [put, ← hconn, hcomplete, erase_append_cons _ hx, List.map_append, List.map_append]
    · rfl
    · intro a ha
      obtain ⟨e, he, rfl⟩ := List.mem_map.mp ha
      exact hfront e he
  · have hblocks : (front ++ rest ++ [Cell.mk node new complete]).map Cell.block
        = (front ++ rest).map Cell.block ++ [new] := List.map_append
    rw [hblocks]
    exact hfr1.trans (hf2.records.extend [new])

theorem handleAppPackage_spec (socket : ℕ) (sPackage : List UInt8) (now : ℤ)
    (hh : HoldsConnections m c cells C) (hroomy : m.Roomy) (halloc : alloc.Lawful)
    (hn : cells.length < fuel) :
    ∃ r, c.handleAppPackage m alloc socket sPackage now fuel = .ok r ∧
      Agree (fun S s => S.1 = s.1 ∧ BecameConnections m cells c S.2 s.2.1 s.2.2)
        (C.handleAppPackage socket sPackage now) r := by
  rw [StoredController.handleAppPackage]
  cases hp : ClientPackage.deserialize sPackage with
  | error f =>
    refine ⟨_, rfl, Or.inl ⟨f, ?_, rfl⟩⟩
    rw [MIPTPAppController.handleAppPackage, hp]
  | ok package =>
    dsimp only
    by_cases hchecks : package.port > 0 ∧ package.destination > 0
    swap
    · rw [if_neg hchecks]
      exact ⟨_, rfl, Or.inr ⟨_, _, MIPTPAppController.handleAppPackage_unchecked hp hchecks now, rfl,
        rfl, hh.same⟩⟩
    rw [if_pos hchecks, hh.timeout]
    show ∃ r, Except.map _ (scan _ _ (StoredController.replace alloc socket
      (C.requested socket package now)) _ _ _) = .ok r ∧ _
    have hscan : ∃ s left, scan (fun s : StoredController.Result κ α => s.2.2)
        (fun s => .ok ((-1, s.2), true))
        (StoredController.replace alloc socket (C.requested socket package now))
        c.connections fuel (1, c.connections, m) = .ok (s, left) ∧
        ∃ C', C.handleAppPackage socket sPackage now = .ok (s.1, C') ∧
          BecameConnections m cells c C' s.2.1 s.2.2 := by
      refine scan_rule (I := Seeking m c cells socket) (P := fun r => ∃ s left, r = .ok (s, left) ∧
        ∃ C', C.handleAppPackage socket sPackage now = .ok (s.1, C') ∧
          BecameConnections m cells c C' s.2.1 s.2.2) ?_ ?_ ?_ hh.stores.nodes.first
        ⟨rfl, [], rfl, by simp⟩ hn
      · rintro x rest _ ⟨rfl, done, rfl, _⟩
        exact ⟨_, _, hh.stores.node_eq, hh.stores.record_eq⟩
      · rintro x rest _ ⟨rfl, done, rfl, hdone⟩
        by_cases hx : x.record.socket = socket
        · have hlookup : lookup AppConnection.socket socket C.connections = some x.record := by
            rw [← hh.connections, List.map_append, List.map_cons, lookup_append_cons _ hx]
            intro a ha
            obtain ⟨e, he, rfl⟩ := List.mem_map.mp ha
            exact hdone e he
          cases hreq : C.requested socket package now with
          | none =>
            simp only [StoredController.replace, if_pos hx]
            exact .leave _ ⟨_, true, rfl, _,
              MIPTPAppController.handleAppPackage_refused hp hchecks hlookup hreq, hh.same⟩
          | some complete =>
            obtain ⟨list, m', hrun, hbecame⟩ := hh.replace_spec hroomy halloc hdone hx
              (AppConnection.create_eq_some hreq).1
            rw [hrun]
            exact .leave _ ⟨_, true, rfl, _,
              MIPTPAppController.handleAppPackage_replaced hp hchecks hlookup hreq, hbecame⟩
        · simp only [StoredController.replace, if_neg hx]
          refine .again _ _ ⟨rfl, done ++ [x], by simp, ?_⟩ hh.stores.node_eq rfl
          intro e he
          rcases List.mem_append.mp he with he | he
          · exact hdone e he
          · rwa [List.mem_singleton.mp he]
      · rintro _ ⟨rfl, done, hdone, hall⟩
        rw [List.append_nil] at hdone
        obtain rfl := hdone
        refine ⟨_, false, rfl, C, MIPTPAppController.handleAppPackage_unlisted hp hchecks ?_ now,
          hh.same⟩
        rw [lookup_eq_none_iff, ← hh.connections]
        intro a ha
        obtain ⟨e, he, rfl⟩ := List.mem_map.mp ha
        exact hall e he
    obtain ⟨s, left, hrun, C', hC, hbecame⟩ := hscan
    rw [hrun]
    exact ⟨_, rfl, Or.inr ⟨_, _, hC, rfl, rfl, hbecame⟩⟩

theorem handleConnection_spec (newSocket : ℕ) (hh : HoldsConnections m c cells C) (hroomy : m.Roomy)
    (halloc : alloc.Lawful) :
    ∃ list m' C', c.handleConnection m alloc newSocket = .ok (some (list, m')) ∧
      C.handleConnection newSocket = some C' ∧ BecameConnections m cells c C' list m' ∧
      C'.connections.length = C.connections.length + 1 := by
  obtain ⟨block, hblock, hb⟩ := halloc.block 0 m.records hroomy.records
  obtain ⟨node, hnode, hfree⟩ := halloc.node 0 m.nodes hroomy.nodes
  have hfresh := hh.stores.not_mem_of_free hb
  obtain ⟨connection, hconn⟩ : ∃ connection, AppConnection.createNotReady newSocket = some connection :=
    ⟨_, rfl⟩
  have hs1 : Stores (⟨m.nodes, m.records.write block (some connection)⟩ : ConnectionMemory κ α)
      c.connections cells := hh.stores.alloc connection hb
  obtain ⟨h', list', hpush, hs2, hf⟩ := hs1.push (c := ⟨node, block, connection⟩) hfree
    (Heap.write_self _) hfresh
  refine ⟨list', ⟨h', m.records.write block (some connection)⟩,
    { C with connections := C.connections ++ [connection] }, ?_, ?_,
    ⟨_, ⟨hs2, hh.maxConnections, hh.timeout, ?_⟩, hf, ?_⟩, by simp⟩
  · rw [StoredController.handleConnection, hconn, hblock]
    dsimp only
    rw [hnode, hpush]
    rfl
  · rw [MIPTPAppController.handleConnection, hconn]
    rfl
  · rw [List.map_append, hh.connections]
    rfl
  · rw [List.map_append]
    exact frame_alloc connection hb

theorem handleMipdPackage_spec (mipAddress : MIPAddress) (dataSize : UInt16) (data : List UInt8)
    (hh : HoldsConnections m c cells C) (hn : cells.length < fuel) :
    ∃ r, c.handleMipdPackage m mipAddress dataSize data fuel = .ok r ∧
      Agree (fun S s => S.1 = s.1 ∧ BecameConnections m cells c S.2 c.connections s.2)
        (C.handleMipdPackage mipAddress dataSize data) r := by
  rw [StoredController.handleMipdPackage, MIPTPAppController.handleMipdPackage]
  cases hp : MIPTPPackage.deserialize data dataSize with
  | error f => exact ⟨_, rfl, Or.inl ⟨f, rfl, rfl⟩⟩
  | ok package =>
    obtain ⟨s, hrun, hagree⟩ := visitRecords_spec (receiveVisit mipAddress package) (-1) 1
      hh.stores hn
    dsimp only
    rw [hrun, deliver_eq_visitAll, ← hh.connections]
    refine ⟨_, rfl, ?_⟩
    rw [map_map_except]
    refine hagree.map_left ?_
    rintro l w ⟨hw, cells', hcells', hs', hf'⟩
    exact ⟨hw.symm, cells', ⟨hs', hh.maxConnections, hh.timeout, hcells'⟩, hf'⟩

theorem handleOutgoing_spec (hh : HoldsConnections m c cells C) (hn : cells.length < fuel) :
    ∃ r, c.handleOutgoing m fuel = .ok r ∧
      Agree (fun S s => S.2 = s.1 ∧ BecameConnections m cells c S.1 c.connections s.2)
        C.handleOutgoing r := by
  obtain ⟨s, hrun, hagree⟩ := visitRecords_spec outgoingVisit [] [] hh.stores hn
  have heq : C.handleOutgoing = (visitAll outgoingVisit (cells.map Cell.record) []).map fun r =>
      ({ C with connections := r.1 }, r.2) := by
    rw [← outgoing_eq_visitAll, map_map_except, hh.connections]
    rfl
  rw [StoredController.handleOutgoing, hrun, heq]
  refine ⟨_, rfl, hagree.map_left ?_⟩
  rintro l w ⟨hw, cells', hcells', hs', hf'⟩
  exact ⟨hw.symm, cells', ⟨hs', hh.maxConnections, hh.timeout, hcells'⟩, hf'⟩

/-- no connection in front of `rest` is complete, and nothing has been done -/
def Passing (m : ConnectionMemory κ α) (c : StoredController κ) (cells rest : List (ConnectionCell κ α))
    (s : CList κ × ConnectionMemory κ α) : Prop :=
  s = (c.connections, m) ∧ ∃ done, cells = done ++ rest ∧ ∀ e ∈ done, ¬ e.record.isComplete = true

/-- **The loop that goes on after it has removed a connection** reads the node that has just been
freed: nothing follows the first complete connection. -/
theorem handleCompletes_spec (hh : HoldsConnections m c cells C) (hn : cells.length < fuel) :
    c.handleCompletes m fuel = if ∃ connection ∈ C.connections, connection.isComplete = true
      then .error .dangling else .ok (c.connections, m) := by
  have hsome : (∃ connection ∈ C.connections, connection.isComplete = true)
      ↔ ∃ e ∈ cells, e.record.isComplete = true := by
    rw [← hh.connections]
    simp
  simp only [hsome]
  have hscan : (scan Prod.snd (fun s => .ok (s, true)) StoredController.complete c.connections fuel
      (c.connections, m)).map Prod.fst = if ∃ e ∈ cells, e.record.isComplete = true
        then .error .dangling else .ok (c.connections, m) := by
    refine scan_rule (I := Passing m c cells) (P := fun r => r.map Prod.fst
      = if ∃ e ∈ cells, e.record.isComplete = true then .error .dangling else .ok (c.connections, m))
      ?_ ?_ ?_ hh.stores.nodes.first ⟨rfl, [], rfl, by simp⟩ hn
    · rintro x rest _ ⟨rfl, done, rfl, _⟩
      exact ⟨_, _, hh.stores.node_eq, hh.stores.record_eq⟩
    · rintro x rest _ ⟨rfl, done, rfl, hdone⟩
      by_cases hx : x.record.isComplete = true
      · obtain ⟨h', list', hrem, hfree, hgone, _, _⟩ := hh.stores.drop
        have hrun : StoredController.complete x.node x.block x.record (c.connections, m)
            = .ok ((list', ⟨h', m.records.write x.block none⟩), false) := by
          rw [StoredController.complete, if_pos hx]
          show (m.records.free (some x.block) >>= _) = _
          rw [hfree]
          show (c.connections.remove m.nodes (some x.node) >>= _) = _
          rw [hrem]
          rfl
        rw [hrun]
        refine .freed _ hgone ?_
        rw [if_pos ⟨x, by simp, hx⟩]
        rfl
      · rw [StoredController.complete, if_neg hx]
        refine .again _ _ ⟨rfl, done ++ [x], by simp, ?_⟩ hh.stores.node_eq rfl
        intro e he
        rcases List.mem_append.mp he with he | he
        · exact hdone e he
        · rwa [List.mem_singleton.mp he]
    · rintro _ ⟨rfl, done, hdone, hall⟩
      rw [List.append_nil] at hdone
      obtain rfl := hdone
      rw [if_neg fun h => h.elim fun e he => hall e he.1 he.2]
      rfl
  exact hscan

end HoldsConnections
end MipStack
