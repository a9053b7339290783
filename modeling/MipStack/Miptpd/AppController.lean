import MipStack.Miptpd.AppConnection
import MipStack.Commons.MIPDMessage
import MipStack.Library.Keyed

/-!
# The connections of miptpd (`miptp_app_controller.c`)

* `handleAppPackage`       decodes what a client has written and puts a connection of the requested
                           kind in the place of the one with its socket;
* `handleMipdPackage`      decodes a package and gives it to all connections with its port;
* `handleOutgoing`         the packages of all windows, each written into 1496 bytes on the stack;
* `handleCompletes`        answers the clients of complete connections and takes these out of the list;
* `Registers sPackage`     what a client has to write to be registered;
* `handleAppPackage_cases`   what the handler can do with a package that can be read;
* `Registers.handleAppPackage`, `handleAppPackage_rejected`   **its own connection is replaced, or
                           none is**;
* `deliver_eq`, `WellFormed.handleMipdPackage_eq`   **no package from mipd makes a connection fail**;
* `WellFormed.handleOutgoing_iff`   no window may hold more than 1490 bytes in one package.

As in `AppConnection.lean`, connections lie at addresses below 2 ^ 31.
-/

namespace MipStack
open Library

structure MIPTPAppController where
  connections : List AppConnection
  maxConnections : ℕ
  timeout : ℕ
  deriving DecidableEq

namespace MIPTPAppController

def MAX_APP_CONNECTIONS : ℕ := 10

/-- the timeout of the server is not handed on -/
def create : MIPTPAppController := ⟨[], MAX_APP_CONNECTIONS, 0⟩

/-- return code and controller -/
def handleAppPackage (controller : MIPTPAppController) (socket : ℕ) (sPackage : List UInt8)
    (now : ℤ) : Except Fault (ℤ × MIPTPAppController) :=
  match ClientPackage.deserialize sPackage with
  | .error f => .error f
  | .ok package =>
    if package.port > 0 ∧ package.destination > 0 then
      match lookup AppConnection.socket socket controller.connections with
      | none => .ok (1, controller)
      | some _ =>
        match AppConnection.create (connectionType package.type) socket package.port
          package.destination package.data controller.timeout now with
        | none => .ok (-1, controller)
        | some completeConnection =>
          .ok (1, { controller with
            connections := put AppConnection.socket completeConnection controller.connections })
    else .ok (-1, controller)

/-- the loop over the connections; the first one that fails ends it -/
def deliver (sender : MIPAddress) (package : MIPTPPackage) :
    List AppConnection → Except Fault (ℤ × List AppConnection)
  | [] => .ok (1, [])
  | connection :: rest =>
    if connection.port = package.miptpHeader.port then
      match connection.receivePackage sender package with
      | .error f => .error f
      | .ok (rc, connection) =>
        if rc = -1 then .ok (-1, connection :: rest)
        else (deliver sender package rest).map fun x => (x.1, connection :: x.2)
    else (deliver sender package rest).map fun x => (x.1, connection :: x.2)

/-- the three fields of the message; `data` is what can be read at the address it holds -/
def handleMipdPackage (controller : MIPTPAppController) (mipAddress : MIPAddress)
    (dataSize : UInt16) (data : List UInt8) : Except Fault (ℤ × MIPTPAppController) :=
  match MIPTPPackage.deserialize data dataSize with
  | .error f => .error f
  | .ok package =>
    (deliver mipAddress package controller.connections).map fun x =>
      (x.1, { controller with connections := x.2 })

/-- `none` for the return value -1 -/
def handleConnection (controller : MIPTPAppController) (newSocket : ℕ) :
    Option MIPTPAppController :=
  (AppConnection.createNotReady newSocket).map fun connection =>
    { controller with connections := controller.connections ++ [connection] }

def isAConnection (controller : MIPTPAppController) (socket : ℕ) : Bool :=
  (lookup AppConnection.socket socket controller.connections).isSome

/-- the socket stays open -/
def disconnect (controller : MIPTPAppController) (socket : ℕ) : MIPTPAppController :=
  { controller with connections := erase AppConnection.socket socket controller.connections }

/-- the message for mipd, after the package was written into the array `p_buffer` -/
def packageMessage (connectedMip : MIPAddress) (package : MIPTPPackage) : Except Fault MIPDMessage :=
  let (pBuffer, rc) := package.serialize
  if pBuffer.length ≤ MAX_MIPTP_PACKAGE_SIZE then
    match MIPDMessage.create connectedMip rc.toNat pBuffer with
    | none => .error .errorExit
    | some message => .ok message
  else .error .outOfBounds

def packageMessages (connectedMip : MIPAddress) :
    List MIPTPPackage → Except Fault (List MIPDMessage)
  | [] => .ok []
  | package :: rest =>
    match packageMessage connectedMip package with
    | .error f => .error f
    | .ok message => (packageMessages connectedMip rest).map fun messages => message :: messages

/-- the loop of `MIPTPAppController_handle_outgoing`: the connections after it, and what was sent -/
def outgoing : List AppConnection → Except Fault (List AppConnection × List MIPDMessage)
  | [] => .ok ([], [])
  | connection :: rest =>
    match connection.nextPackages with
    | .error f => .error f
    | .ok (none, _) => .error .errorExit
    | .ok (some packages, connection) =>
      match packageMessages connection.connectedMip packages with
      | .error f => .error f
      | .ok sent => (outgoing rest).map fun x => (connection :: x.1, sent ++ x.2)

def handleOutgoing (controller : MIPTPAppController) :
    Except Fault (MIPTPAppController × List MIPDMessage) :=
  (outgoing controller.connections).map fun x => ({ controller with connections := x.1 }, x.2)

/-- return code, and the bytes for the socket, out of a cleared buffer -/
def sendClientPackage (socket : ℕ) : Option ClientPackage → ℤ × List (ℕ × List UInt8)
  | none => (-1, [])
  | some package =>
    let (sPackage, rc) := package.serialize
    let buffer := sPackage.takeD (ClientPackage.SIZEOF_CLIENTPACKAGE + package.data.1.length) 0
    (1, [(socket, buffer.take rc.toNat)])

/-- what a call of `MIPTPAppController_handle_completes` has sent and closed, and the connections
that it leaves, unless it goes wrong -/
structure Completes where
  sent : List (ℕ × List UInt8)
  closed : List ℕ
  connections : Except Fault (List AppConnection)

/-- the loop; the return code of the send is not looked at -/
def completes : List AppConnection → Completes
  | [] => ⟨[], [], .ok []⟩
  | connection :: rest =>
    if connection.isComplete then
      match connection.result with
      | .error f => ⟨[], [], .error f⟩
      | .ok result =>
        -- `List_remove` has freed the node, out of which the loop reads the next one
        ⟨(sendClientPackage connection.socket result).2, connection.close, .error .outOfBounds⟩
    else
      let after := completes rest
      { after with connections := after.connections.map fun kept => connection :: kept }

def handleCompletes (controller : MIPTPAppController) : Completes := completes controller.connections

/-! ## a package from a client -/

def WellFormed (limit : ℕ) (controller : MIPTPAppController) : Prop :=
  ∀ connection ∈ controller.connections, connection.WellFormed limit

structure Registers (sPackage : List UInt8) : Prop where
  port : ClientPackage.serializedGetPort sPackage > 0
  destination : ClientPackage.serializedGetDestination sPackage > 0
  type : ClientPackage.serializedGetType sPackage ≠ .MIPTP_RECEIVER
  size : 9 + (ClientPackage.serializedGetDataSize sPackage).toNat ≤ sPackage.length

variable {limit : ℕ} {controller : MIPTPAppController}

/-- the connection that the handler makes of a package -/
def requested (controller : MIPTPAppController) (socket : ℕ) (package : ClientPackage) (now : ℤ) :
    Option AppConnection :=
  AppConnection.create (connectionType package.type) socket package.port package.destination
    package.data controller.timeout now

theorem connectionType_eq_receiver_iff (type : MIPTPClientType) :
    connectionType type = .CONN_RECEIVER ↔ type = .MIPTP_RECEIVER := by
  cases type <;> simp [connectionType]

theorem requested_eq_none_iff (controller : MIPTPAppController) (socket : ℕ)
    (package : ClientPackage) (now : ℤ) :
    controller.requested socket package now = none ↔ package.type = .MIPTP_RECEIVER := by
  rw [requested, AppConnection.create_eq_none_iff, connectionType_eq_receiver_iff]

theorem isAConnection_eq_true_iff (socket : ℕ) : controller.isAConnection socket = true ↔
    ∃ c, lookup AppConnection.socket socket controller.connections = some c :=
  Option.isSome_iff_exists

theorem handleAppPackage_outOfBounds {sPackage : List UInt8}
    (h : sPackage.length < 9 + (ClientPackage.serializedGetDataSize sPackage).toNat) (socket : ℕ)
    (now : ℤ) : controller.handleAppPackage socket sPackage now = .error .outOfBounds := by
  rw [handleAppPackage, ClientPackage.deserialize, if_neg (Nat.not_le.mpr h)]

section
variable {socket : ℕ} {sPackage : List UInt8} {package : ClientPackage} {c : AppConnection}

theorem exists_deserialize_of_handleAppPackage {now : ℤ} {x : ℤ × MIPTPAppController}
    (hx : controller.handleAppPackage socket sPackage now = .ok x) :
    ∃ package, ClientPackage.deserialize sPackage = .ok package := by
  cases hp : ClientPackage.deserialize sPackage with
  | error f =>
    rw [handleAppPackage, hp] at hx
    cases hx
  | ok package => exact ⟨package, rfl⟩

theorem handleAppPackage_unchecked (hp : ClientPackage.deserialize sPackage = .ok package)
    (h : ¬ (package.port > 0 ∧ package.destination > 0)) (now : ℤ) :
    controller.handleAppPackage socket sPackage now = .ok (-1, controller) := by
  rw [handleAppPackage, hp]
  exact if_neg h

theorem handleAppPackage_unlisted (hp : ClientPackage.deserialize sPackage = .ok package)
    (h : package.port > 0 ∧ package.destination > 0)
    (hc : lookup AppConnection.socket socket controller.connections = none) (now : ℤ) :
    controller.handleAppPackage socket sPackage now = .ok (1, controller) := by
  rw [handleAppPackage, hp]
  dsimp only
  rw [if_pos h, hc]

theorem handleAppPackage_refused (hp : ClientPackage.deserialize sPackage = .ok package)
    (h : package.port > 0 ∧ package.destination > 0)
    (hc : lookup AppConnection.socket socket controller.connections = some c) {now : ℤ}
    (hrequested : controller.requested socket package now = none) :
    controller.handleAppPackage socket sPackage now = .ok (-1, controller) := by
  unfold requested at hrequested
  rw [handleAppPackage, hp]
  dsimp only
  rw [if_pos h, hc]
  dsimp only
  rw [hrequested]

/-- **The connection that is found is replaced**, if the one that is asked for can be made. -/
theorem handleAppPackage_replaced (hp : ClientPackage.deserialize sPackage = .ok package)
    (h : package.port > 0 ∧ package.destination > 0)
    (hc : lookup AppConnection.socket socket controller.connections = some c) {now : ℤ}
    {complete : AppConnection} (hrequested : controller.requested socket package now = some complete) :
    controller.handleAppPackage socket sPackage now = .ok (1, { controller with
      connections := put AppConnection.socket complete controller.connections }) := by
  unfold requested at hrequested
  rw [handleAppPackage, hp]
  dsimp only
  rw [if_pos h, hc]
  dsimp only
  rw [hrequested]

/-- **What the handler can do**: refuse, find nobody, or put the requested connection in the place of
the one that is found. -/
theorem handleAppPackage_cases (hp : ClientPackage.deserialize sPackage = .ok package)
    (controller : MIPTPAppController) (socket : ℕ) (now : ℤ) :
    controller.handleAppPackage socket sPackage now = .ok (-1, controller) ∨
    controller.handleAppPackage socket sPackage now = .ok (1, controller) ∧
      lookup AppConnection.socket socket controller.connections = none ∨
    ∃ c complete, lookup AppConnection.socket socket controller.connections = some c ∧
      controller.requested socket package now = some complete ∧
      controller.handleAppPackage socket sPackage now = .ok (1, { controller with
        connections := put AppConnection.socket complete controller.connections }) := by
  by_cases hchecks : package.port > 0 ∧ package.destination > 0
  swap
  · exact Or.inl (handleAppPackage_unchecked hp hchecks now)
  cases hc : lookup AppConnection.socket socket controller.connections with
  | none => exact Or.inr (Or.inl ⟨handleAppPackage_unlisted hp hchecks hc now, rfl⟩)
  | some c =>
    cases hrequested : controller.requested socket package now with
    | none => exact Or.inl (handleAppPackage_refused hp hchecks hc hrequested)
    | some complete =>
      exact Or.inr (Or.inr ⟨c, complete, rfl, rfl,
        handleAppPackage_replaced hp hchecks hc hrequested⟩)

/-- the handler returns for every package whose data it can read -/
theorem exists_handleAppPackage_iff (controller : MIPTPAppController) (socket : ℕ)
    (sPackage : List UInt8) (now : ℤ) :
    (∃ x, controller.handleAppPackage socket sPackage now = .ok x) ↔
      9 + (ClientPackage.serializedGetDataSize sPackage).toNat ≤ sPackage.length := by
  constructor
  · rintro ⟨x, hx⟩
    by_contra hsize
    rw [handleAppPackage_outOfBounds (Nat.not_le.mp hsize)] at hx
    cases hx
  · intro hsize
    rcases handleAppPackage_cases (if_pos hsize) controller socket now with h | ⟨h, _⟩ | ⟨_, _, _, _, h⟩
    · exact ⟨_, h⟩
    · exact ⟨_, h⟩
    · exact ⟨_, h⟩

end

/-- **A package in order replaces the connection with its socket.** -/
theorem Registers.handleAppPackage {sPackage : List UInt8} (h : Registers sPackage) {socket : ℕ}
    (hconn : controller.isAConnection socket = true) (now : ℤ) :
    ∃ complete : AppConnection, complete.socket = socket ∧
      complete.WellFormed (ClientPackage.serializedGetDataSize sPackage).toNat ∧
      controller.handleAppPackage socket sPackage now = .ok (1, { controller with
        connections := put AppConnection.socket complete controller.connections }) := by
  obtain ⟨c, hc⟩ := (isAConnection_eq_true_iff socket).mp hconn
  obtain ⟨package, hp, hchecks, htype, hlen⟩ : ∃ package,
      ClientPackage.deserialize sPackage = .ok package ∧
      (package.port > 0 ∧ package.destination > 0) ∧ package.type ≠ .MIPTP_RECEIVER ∧
      package.data.1.length ≤ (ClientPackage.serializedGetDataSize sPackage).toNat :=
    ⟨_, if_pos h.size, ⟨h.port, h.destination⟩, h.type, List.length_take_le _ _⟩
  have hsome := mt (controller.requested_eq_none_iff socket package now).mp htype
  obtain ⟨complete, hcomplete⟩ := Option.ne_none_iff_exists'.mp hsome
  obtain ⟨hsocket, hwell⟩ := AppConnection.create_eq_some hcomplete
  exact ⟨complete, hsocket, hwell.mono hlen, handleAppPackage_replaced hp hchecks hc hcomplete⟩

/-- **A package that can be read but is not in order changes nothing.** -/
theorem handleAppPackage_rejected {sPackage : List UInt8} (h : ¬ Registers sPackage)
    (hsize : 9 + (ClientPackage.serializedGetDataSize sPackage).toNat ≤ sPackage.length)
    {socket : ℕ} (hconn : controller.isAConnection socket = true) (now : ℤ) :
    controller.handleAppPackage socket sPackage now = .ok (-1, controller) := by
  obtain ⟨c, hc⟩ := (isAConnection_eq_true_iff socket).mp hconn
  have hp : ClientPackage.deserialize sPackage = .ok _ := if_pos hsize
  by_cases hchecks : ClientPackage.serializedGetPort sPackage > 0 ∧
      ClientPackage.serializedGetDestination sPackage > 0
  · have htype : ClientPackage.serializedGetType sPackage = .MIPTP_RECEIVER := by
      by_contra htype
      exact h ⟨hchecks.1, hchecks.2, htype, hsize⟩
    exact handleAppPackage_refused hp hchecks hc
      ((controller.requested_eq_none_iff socket _ now).mpr htype)
  · exact handleAppPackage_unchecked hp hchecks now

theorem WellFormed.append (h : controller.WellFormed limit) {connection : AppConnection}
    (hconnection : connection.WellFormed limit) {connections : List AppConnection}
    (hsub : connections.Sublist controller.connections) :
    WellFormed limit { controller with connections := connections ++ [connection] } := by
  intro c hc
  rcases List.mem_append.mp hc with hc | hc
  · exact h c (hsub.mem hc)
  · rw [List.mem_singleton.mp hc]
    exact hconnection

/-! ## a package from mipd -/

/-- **Without receivers no connection fails**, and each one with the port gets the package. -/
theorem deliver_eq (sender : MIPAddress) (package : MIPTPPackage) {connections : List AppConnection}
    (h : ∀ c ∈ connections, c.WellFormed limit) :
    deliver sender package connections
      = .ok (1, connections.map (AppConnection.dispatched package)) := by
  induction connections with
  | nil => rfl
  | cons c rest ih =>
    obtain ⟨hc, hrest⟩ := List.forall_mem_cons.mp h
    rw [List.map_cons, deliver, ih hrest, AppConnection.dispatched]
    split
    · rw [hc.receivePackage_eq]
      rfl
    · rfl

/-- what a package from mipd does to the controller -/
theorem WellFormed.handleMipdPackage_eq (h : controller.WellFormed limit) (mipAddress : MIPAddress)
    (dataSize : UInt16) (data : List UInt8) :
    controller.handleMipdPackage mipAddress dataSize data
      = (MIPTPPackage.deserialize data dataSize).map fun package =>
        (1, { controller with
          connections := controller.connections.map (AppConnection.dispatched package) }) := by
  unfold MIPTPAppController.handleMipdPackage
  cases MIPTPPackage.deserialize data dataSize with
  | error f => rfl
  | ok package =>
    dsimp only
    rw [deliver_eq mipAddress package h]
    rfl

theorem WellFormed.handleMipdPackage (h : controller.WellFormed limit) {mipAddress : MIPAddress}
    {dataSize : UInt16} {data : List UInt8} {x : ℤ × MIPTPAppController}
    (hx : controller.handleMipdPackage mipAddress dataSize data = .ok x) :
    x.1 = 1 ∧ x.2.WellFormed limit := by
  rw [h.handleMipdPackage_eq] at hx
  obtain ⟨package, _, rfl⟩ := map_eq_ok_iff.mp hx
  refine ⟨rfl, fun c hc => ?_⟩
  obtain ⟨d, hd, rfl⟩ := List.mem_map.mp hc
  exact (h d hd).dispatched package

/-! ## the packages of the windows -/

theorem packageMessage_isOk_iff (connectedMip : MIPAddress) {package : MIPTPPackage}
    (h : package.data.length ≤ MAX_DATA_BATCH_SIZE_BYTES) :
    (∃ message, packageMessage connectedMip package = .ok message) ↔
      package.data.length ≤ 1490 := by
  have hmax : package.data.length ≤ 1492 := h
  obtain ⟨hbytes, hsize⟩ := MIPTPPackage.serialize_eq hmax
  have hlen : package.serialize.1.length = 6 + package.data.length := by
    rw [hbytes, List.length_append, List.length_append, length_leBytes]
    show 4 + (2 + package.data.length) = _
    omega
  unfold packageMessage
  dsimp only
  rw [hlen, hsize]
  by_cases hfit : 6 + package.data.length ≤ MAX_MIPTP_PACKAGE_SIZE
  · have hfit' : 6 + package.data.length ≤ 1496 := hfit
    rw [if_pos hfit]
    have hfits : 4 + package.data.length ≤ MAX_MIPMESSAGE_DATA_SIZE := by
      show 4 + package.data.length ≤ 1496
      omega
    obtain ⟨message, hmessage, _⟩ :=
      MIPDMessage.create_eq_some connectedMip package.serialize.1 hfits
    rw [hmessage]
    exact iff_of_true ⟨message, rfl⟩ (by omega)
  · have hfit' : ¬ 6 + package.data.length ≤ 1496 := hfit
    rw [if_neg hfit]
    exact iff_of_false (fun hex => nomatch hex.choose_spec) (by omega)

theorem packageMessages_isOk_iff (connectedMip : MIPAddress) {packages : List MIPTPPackage}
    (h : ∀ p ∈ packages, p.data.length ≤ MAX_DATA_BATCH_SIZE_BYTES) :
    (∃ messages, packageMessages connectedMip packages = .ok messages) ↔
      ∀ p ∈ packages, p.data.length ≤ 1490 := by
  induction packages with
  | nil => exact iff_of_true ⟨[], rfl⟩ (List.forall_mem_nil _)
  | cons p rest ih =>
    obtain ⟨hp, hrest⟩ := List.forall_mem_cons.mp h
    rw [List.forall_mem_cons, ← ih hrest, ← packageMessage_isOk_iff connectedMip hp]
    rw [packageMessages]
    cases packageMessage connectedMip p with
    | error fault =>
      exact iff_of_false (fun h => nomatch h.choose_spec) fun h => nomatch h.1.choose_spec
    | ok message => exact exists_map_ok_iff.trans (and_iff_right ⟨message, rfl⟩).symm

theorem outgoing_cons {c : AppConnection} (hc : c.WellFormed limit) (rest : List AppConnection) :
    outgoing (c :: rest) = match packageMessages c.connectedMip c.window with
      | .error f => .error f
      | .ok sent => (outgoing rest).map fun x => (c :: x.1, sent ++ x.2) := by
  rw [outgoing, hc.nextPackages]

/-- sending changes no connection -/
theorem outgoing_eq_ok {connections : List AppConnection} (h : ∀ c ∈ connections, c.WellFormed limit)
    {x : List AppConnection × List MIPDMessage} (hx : outgoing connections = .ok x) :
    x.1 = connections := by
  induction connections generalizing x with
  | nil =>
    obtain rfl := Except.ok.inj hx
    rfl
  | cons c rest ih =>
    obtain ⟨hc, hrest⟩ := List.forall_mem_cons.mp h
    rw [outgoing_cons hc] at hx
    split at hx
    · cases hx
    · obtain ⟨y, hy, rfl⟩ := map_eq_ok_iff.mp hx
      exact congrArg (c :: ·) (ih hrest hy)

theorem outgoing_isOk_iff {connections : List AppConnection}
    (h : ∀ c ∈ connections, c.WellFormed limit) :
    (∃ x, outgoing connections = .ok x) ↔
      ∀ c ∈ connections, ∀ p ∈ c.window, p.data.length ≤ 1490 := by
  induction connections with
  | nil => exact iff_of_true ⟨_, rfl⟩ (List.forall_mem_nil _)
  | cons c rest ih =>
    obtain ⟨hc, hrest⟩ := List.forall_mem_cons.mp h
    have hbatch : ∀ p ∈ c.window, p.data.length ≤ MAX_DATA_BATCH_SIZE_BYTES := by
      intro p hp
      obtain ⟨job, _, _, hjob⟩ := AppConnection.mem_window hp
      exact (MIPTPSendJob.length_of_mem_nextPackages hjob).1
    rw [List.forall_mem_cons, ← ih hrest, ← packageMessages_isOk_iff c.connectedMip hbatch,
      outgoing_cons hc]
    cases packageMessages c.connectedMip c.window with
    | error fault =>
      exact iff_of_false (fun h => nomatch h.choose_spec) fun h => nomatch h.1.choose_spec
    | ok sent => exact exists_map_ok_iff.trans (and_iff_right ⟨sent, rfl⟩).symm

/-- **Sending works unless a package of a window has more than 1490 bytes of data**: with the header
and the size of the data it does not fit in the 1496 bytes it is written to. -/
theorem WellFormed.handleOutgoing_iff (h : controller.WellFormed limit) :
    (∃ x, controller.handleOutgoing = .ok x) ↔
      ∀ c ∈ controller.connections, ∀ p ∈ c.window, p.data.length ≤ 1490 := by
  rw [← outgoing_isOk_iff h]
  exact exists_map_ok_iff

theorem WellFormed.handleOutgoing (h : controller.WellFormed limit)
    {x : MIPTPAppController × List MIPDMessage} (hx : controller.handleOutgoing = .ok x) :
    x.1 = controller := by
  obtain ⟨y, hy, rfl⟩ := map_eq_ok_iff.mp hx
  show { controller with connections := y.1 } = controller
  rw [outgoing_eq_ok h hy]

end MIPTPAppController

end MipStack
