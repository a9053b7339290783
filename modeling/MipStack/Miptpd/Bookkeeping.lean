import MipStack.Miptpd.Completion
import MipStack.Library.Reach

/-!
# The list of connections of miptpd, over runs (`miptp_app_controller.c`)

* `Clients`          the controller, the descriptors that are open, and what clients have registered;
* `Clients.handle`   the handlers: a connection attempt, a package of a client or from mipd, the end of
                     a client, the answers to finished transfers;
* `ClientsStep`      one call; the kernel gives no descriptor that is open;
* `Consistent`       what every call keeps: one connection for a socket, which is open, with the last
                     14 bits of the registered port;
* `Bookkept`         the list is not too long and knows every open descriptor;
* `Orderly`          room in the list, data that is there, nobody who leaves, and nobody who is done;
* `books_kept_iff`   **the books are kept exactly as long as all calls are orderly**;
* `descriptor_leaks` a client that leaves keeps its descriptor;
* `limit_exceeded`   however many connections there may be, one more is let in.
-/

namespace MipStack
open Library

inductive ControllerEvent
  /-- `added` tells whether `epoll_ctl` takes the descriptor -/
  | connect (newSocket : ℕ) (added : Bool)
  | application (socket : ℕ) (sPackage : List UInt8) (now : ℤ)
  | mipd (mipAddress : MIPAddress) (dataSize : UInt16) (data : List UInt8)
  | disconnect (socket : ℕ)
  | completes

/-- `opened` are the accepted descriptors that are open, `registered` is the last package that was
accepted from a socket; miptpd keeps no record of either -/
structure Clients where
  controller : MIPTPAppController
  opened : List ℕ
  registered : ℕ → Option ClientPackage

namespace Clients

def start (maxConnections : ℕ) : Clients := ⟨⟨[], maxConnections, 0⟩, [], fun _ => none⟩

def connections (s : Clients) : List AppConnection := s.controller.connections

/-- `MIPTPAppController_handle_connection` with the descriptor from `accept`, which stays open where
the function fails -/
def connect (s : Clients) (newSocket : ℕ) (added : Bool) : Clients where
  controller := if added then (s.controller.handleConnection newSocket).getD s.controller
    else s.controller
  opened := newSocket :: s.opened
  registered := Function.update s.registered newSocket none

/-- the state after a package of a client; one that is accepted on a connection is remembered -/
def register (s : Clients) (socket : ℕ) (sPackage : List UInt8) (result : ℤ × MIPTPAppController) :
    Clients where
  controller := result.2
  opened := s.opened
  registered := if result.1 = 1 ∧ s.controller.isAConnection socket = true then
      Function.update s.registered socket (ClientPackage.deserialize sPackage).toOption
    else s.registered

def close (s : Clients) (closed : List ℕ) (kept : List AppConnection) : Clients where
  controller := { s.controller with connections := kept }
  opened := s.opened.filter fun socket => socket ∉ closed
  registered := s.registered

def handle (s : Clients) : ControllerEvent → Except Fault Clients
  | .connect newSocket added => .ok (s.connect newSocket added)
  | .application socket sPackage now =>
    (s.controller.handleAppPackage socket sPackage now).map (s.register socket sPackage)
  | .mipd mipAddress dataSize data =>
    (s.controller.handleMipdPackage mipAddress dataSize data).map fun x =>
      { s with controller := x.2 }
  | .disconnect socket => .ok { s with controller := s.controller.disconnect socket }
  | .completes =>
    s.controller.handleCompletes.connections.map (s.close s.controller.handleCompletes.closed)

/-- the kernel hands out no descriptor that is open -/
def Enabled (s : Clients) : ControllerEvent → Prop
  | .connect newSocket _ => newSocket ∉ s.opened
  | .application _ _ _ => True
  | .mipd _ _ _ => True
  | .disconnect _ => True
  | .completes => True

end Clients

/-- one call of a handler; a fault is final -/
def ClientsStep (r : Except Fault Clients) (ev : ControllerEvent) (r' : Except Fault Clients) :
    Prop :=
  ∃ s, r = .ok s ∧ s.Enabled ev ∧ r' = s.handle ev

/-! ## what every call keeps -/

namespace Clients

/-- the port that is stored for a client, which is -1 before it has registered one -/
def portOf (request : Option ClientPackage) : BitVec 14 :=
  BitVec.ofNat 14 (request.elim 65535 fun package => package.port.toNat)

structure Consistent (s : Clients) : Prop where
  wellFormed : s.controller.WellFormed 65535
  unique : Unique AppConnection.socket s.connections
  opened : ∀ c ∈ s.connections, c.socket ∈ s.opened
  port : ∀ c ∈ s.connections, c.port = portOf (s.registered c.socket)

theorem consistent_start (maxConnections : ℕ) : (start maxConnections).Consistent :=
  ⟨List.forall_mem_nil _, unique_nil, List.forall_mem_nil _, List.forall_mem_nil _⟩

variable {s : Clients}

theorem portOf_update_of_ne {registered : ℕ → Option ClientPackage} {c : AppConnection}
    (h : c.port = portOf (registered c.socket)) {socket : ℕ} (hne : c.socket ≠ socket)
    (request : Option ClientPackage) :
    c.port = portOf (Function.update registered socket request c.socket) := by
  rw [Function.update_of_ne hne]
  exact h

theorem connections_connect (s : Clients) (newSocket : ℕ) :
    (s.connect newSocket true).connections
      = s.connections ++ [⟨16383, newSocket, 0, .CONN_NOT_READY, none, none⟩] := rfl

theorem Consistent.connect (h : s.Consistent) {newSocket : ℕ} (hnew : newSocket ∉ s.opened)
    (added : Bool) : (s.connect newSocket added).Consistent := by
  have hother : ∀ c ∈ s.connections, c.socket ≠ newSocket := by
    intro c hc hsocket
    exact hnew (hsocket ▸ h.opened c hc)
  have hopened : ∀ c ∈ s.connections, c.socket ∈ newSocket :: s.opened :=
    fun c hc => List.mem_cons_of_mem _ (h.opened c hc)
  have hport : ∀ c ∈ s.connections,
      c.port = portOf (Function.update s.registered newSocket none c.socket) :=
    fun c hc => portOf_update_of_ne (h.port c hc) (hother c hc) none
  cases added with
  | false => exact ⟨h.wellFormed, h.unique, hopened, hport⟩
  | true =>
    have hready : AppConnection.createNotReady newSocket
        = some ⟨16383, newSocket, 0, .CONN_NOT_READY, none, none⟩ := rfl
    refine ⟨?_, ?_, ?_, ?_⟩
    · exact h.wellFormed.append
        ((AppConnection.create_eq_some hready).2.mono (Nat.zero_le _)) (List.Sublist.refl _)
    · rw [connections_connect]
      exact h.unique.append_singleton hother
    · rw [connections_connect, List.forall_mem_append]
      exact ⟨hopened, List.forall_mem_singleton.mpr List.mem_cons_self⟩
    · rw [connections_connect, List.forall_mem_append]
      refine ⟨hport, List.forall_mem_singleton.mpr ?_⟩
      show 16383 = portOf (Function.update s.registered newSocket none newSocket)
      rw [Function.update_self]
      rfl

/-- what a package of a client does: nothing, or it replaces the connection on its socket -/
theorem register_cases {socket : ℕ} {sPackage : List UInt8} {now : ℤ} {x : ℤ × MIPTPAppController}
    (hx : s.controller.handleAppPackage socket sPackage now = .ok x) :
    s.register socket sPackage x = s ∨ ∃ package c complete,
      lookup AppConnection.socket socket s.connections = some c ∧
      s.controller.requested socket package now = some complete ∧
      s.register socket sPackage x = { s with
        controller := { s.controller with
          connections := put AppConnection.socket complete s.connections }
        registered := Function.update s.registered socket (some package) } := by
  obtain ⟨package, hp⟩ := MIPTPAppController.exists_deserialize_of_handleAppPackage hx
  rcases MIPTPAppController.handleAppPackage_cases hp s.controller socket now with h | ⟨h, hnone⟩ |
    ⟨c, complete, hc, hrequested, h⟩
  · obtain rfl := Except.ok.inj (hx.symm.trans h)
    have hrc : ¬ (-1 : ℤ) = 1 := by decide
    rw [register, if_neg fun h => hrc h.1]
    exact Or.inl rfl
  · obtain rfl := Except.ok.inj (hx.symm.trans h)
    have hconn : ¬ s.controller.isAConnection socket = true := by
      rw [MIPTPAppController.isAConnection, hnone]
      exact Bool.false_ne_true
    rw [register, if_neg fun h => hconn h.2]
    exact Or.inl rfl
  · obtain rfl := Except.ok.inj (hx.symm.trans h)
    have hconn : s.controller.isAConnection socket = true :=
      (MIPTPAppController.isAConnection_eq_true_iff socket).mpr ⟨c, hc⟩
    refine Or.inr ⟨package, c, complete, hc, hrequested, ?_⟩
    rw [register, if_pos ⟨rfl, hconn⟩, hp]
    rfl

theorem Consistent.register (h : s.Consistent) {socket : ℕ} {sPackage : List UInt8} {now : ℤ}
    {x : ℤ × MIPTPAppController} (hx : s.controller.handleAppPackage socket sPackage now = .ok x) :
    (s.register socket sPackage x).Consistent := by
  rcases register_cases hx with heq | ⟨package, c, complete, hc, hrequested, heq⟩
  · rw [heq]
    exact h
  obtain ⟨rfl, hwell⟩ := AppConnection.create_eq_some hrequested
  have hmem : ∀ d, d ∈ put AppConnection.socket complete s.connections →
      d = complete ∨ d ∈ s.connections ∧ d.socket ≠ complete.socket := fun d => h.unique.mem_put.mp
  rw [heq]
  refine ⟨?_, h.unique.put complete, fun d hd => ?_, fun d hd => ?_⟩
  · exact h.wellFormed.append (hwell.mono package.data.2) (erase_sublist _ _ _)
  · rcases hmem d hd with rfl | ⟨hd, _⟩
    · rw [← key_of_lookup hc]
      exact h.opened c (mem_of_lookup hc)
    · exact h.opened d hd
  · rcases hmem d hd with rfl | ⟨hd, hne⟩
    · show d.port = portOf (Function.update s.registered d.socket (some package) d.socket)
      rw [Function.update_self]
      exact AppConnection.create_port hrequested
    · exact portOf_update_of_ne (h.port d hd) hne (some package)

/-- the state after a package from mipd -/
def dispatched (s : Clients) (package : MIPTPPackage) : Clients where
  controller := { s.controller with
    connections := s.connections.map (AppConnection.dispatched package) }
  opened := s.opened
  registered := s.registered

theorem Consistent.handle_mipd (h : s.Consistent) (mipAddress : MIPAddress) (dataSize : UInt16)
    (data : List UInt8) : s.handle (.mipd mipAddress dataSize data)
      = (MIPTPPackage.deserialize data dataSize).map s.dispatched := by
  rw [handle, h.wellFormed.handleMipdPackage_eq]
  cases MIPTPPackage.deserialize data dataSize with
  | error f => rfl
  | ok package => rfl

theorem sockets_dispatched (s : Clients) (package : MIPTPPackage) :
    (s.dispatched package).connections.map AppConnection.socket
      = s.connections.map AppConnection.socket := by
  show (s.connections.map (AppConnection.dispatched package)).map AppConnection.socket = _
  rw [List.map_map]
  exact List.map_congr_left fun c _ => c.dispatched_socket package

theorem Consistent.dispatched (h : s.Consistent) (package : MIPTPPackage) :
    (s.dispatched package).Consistent := by
  refine ⟨fun d hd => ?_, ?_, fun d hd => ?_, fun d hd => ?_⟩
  · obtain ⟨c, hc, rfl⟩ := List.mem_map.mp hd
    exact (h.wellFormed c hc).dispatched package
  · show ((s.dispatched package).connections.map AppConnection.socket).Nodup
    rw [sockets_dispatched]
    exact h.unique
  · obtain ⟨c, hc, rfl⟩ := List.mem_map.mp hd
    rw [AppConnection.dispatched_socket]
    exact h.opened c hc
  · obtain ⟨c, hc, rfl⟩ := List.mem_map.mp hd
    rw [AppConnection.dispatched_socket, AppConnection.dispatched_port]
    exact h.port c hc

/-- fewer connections with the same descriptors -/
theorem Consistent.sublist (h : s.Consistent) {kept : List AppConnection}
    (hkept : kept.Sublist s.connections) :
    ({ s with controller := { s.controller with connections := kept } } : Clients).Consistent :=
  ⟨fun c hc => h.wellFormed c (hkept.mem hc), h.unique.sublist hkept,
    fun c hc => h.opened c (hkept.mem hc), fun c hc => h.port c (hkept.mem hc)⟩

theorem handle_completes (h : ∀ c ∈ s.connections, c.status ≠ .CONN_COMPLETE) :
    s.handle .completes = .ok s := by
  have hopened : s.opened.filter (fun socket => socket ∉ ([] : List ℕ)) = s.opened :=
    List.filter_eq_self.mpr fun socket _ => decide_eq_true List.not_mem_nil
  have hcompletes : s.controller.handleCompletes = ⟨[], [], .ok s.connections⟩ :=
    MIPTPAppController.completes_of_none_complete h
  rw [handle, hcompletes]
  show Except.ok (s.close [] s.connections) = .ok s
  rw [close, hopened]
  rfl

theorem exists_handle_completes_iff (s : Clients) : (∃ s', s.handle .completes = .ok s') ↔
    ∀ c ∈ s.connections, c.status ≠ .CONN_COMPLETE :=
  exists_map_ok_iff.trans (MIPTPAppController.completes_connections_iff s.connections)

/-- **Every call keeps the list consistent.** -/
theorem Consistent.handle (h : s.Consistent) {ev : ControllerEvent} (hev : s.Enabled ev)
    {s' : Clients} (hs : s.handle ev = .ok s') : s'.Consistent := by
  cases ev with
  | connect newSocket added =>
    obtain rfl := Except.ok.inj hs
    exact h.connect hev added
  | application socket sPackage now =>
    obtain ⟨x, hx, rfl⟩ := map_eq_ok_iff.mp hs
    exact h.register hx
  | mipd mipAddress dataSize data =>
    rw [h.handle_mipd] at hs
    obtain ⟨package, _, rfl⟩ := map_eq_ok_iff.mp hs
    exact h.dispatched package
  | disconnect socket =>
    obtain rfl := Except.ok.inj hs
    exact h.sublist (erase_sublist _ socket s.connections)
  | completes =>
    rw [handle_completes (s.exists_handle_completes_iff.mp ⟨s', hs⟩)] at hs
    obtain rfl := Except.ok.inj hs
    exact h

/-! ## the books -/

structure Bookkept (s : Clients) : Prop where
  bounded : s.connections.length ≤ s.controller.maxConnections
  unique : Unique AppConnection.socket s.connections
  listed : ∀ socket ∈ s.opened, ∃ c ∈ s.connections, c.socket = socket
  isAConnection : ∀ socket, s.controller.isAConnection socket = true ↔
    ∃ c ∈ s.connections, c.socket = socket

/-- **The condition**, in the order of the handlers: the list has room and the descriptor is taken;
what is declared can be read, from a client and from mipd; no connection is left, and none is
complete. -/
def Orderly (s : Clients) : ControllerEvent → Prop
  | .connect _ added => added = true ∧ s.connections.length < s.controller.maxConnections
  | .application _ sPackage _ =>
    9 + (ClientPackage.serializedGetDataSize sPackage).toNat ≤ sPackage.length
  | .mipd _ dataSize data => 4 + (dataSize - 4).toNat ≤ data.length
  | .disconnect socket => ∀ c ∈ s.connections, c.socket ≠ socket
  | .completes => ∀ c ∈ s.connections, c.status ≠ .CONN_COMPLETE

theorem isAConnection_iff (s : Clients) (socket : ℕ) :
    s.controller.isAConnection socket = true ↔ ∃ c ∈ s.connections, c.socket = socket := by
  rw [MIPTPAppController.isAConnection_eq_true_iff]
  constructor
  · rintro ⟨c, hc⟩
    exact ⟨c, mem_of_lookup hc, key_of_lookup hc⟩
  · rintro ⟨c, hc, rfl⟩
    exact Option.isSome_iff_exists.mp (lookup_isSome_of_mem AppConnection.socket hc)

theorem Consistent.bookkept_iff (h : s.Consistent) : s.Bookkept ↔
    s.connections.length ≤ s.controller.maxConnections ∧
      ∀ socket ∈ s.opened, ∃ c ∈ s.connections, c.socket = socket :=
  ⟨fun hb => ⟨hb.bounded, hb.listed⟩, fun hb => ⟨hb.1, h.unique, hb.2, s.isAConnection_iff⟩⟩

/-- the books are kept where the list has the same descriptors as before -/
theorem Bookkept.of_perm (hb : s.Bookkept) {s' : Clients} (h : s'.Consistent)
    (hmax : s'.controller.maxConnections = s.controller.maxConnections)
    (hopened : s'.opened = s.opened)
    (hperm : (s'.connections.map AppConnection.socket).Perm
      (s.connections.map AppConnection.socket)) : s'.Bookkept := by
  rw [h.bookkept_iff, hmax, hopened]
  constructor
  · have hlen := hperm.length_eq
    rw [List.length_map, List.length_map] at hlen
    rw [hlen]
    exact hb.bounded
  · intro socket hsocket
    exact List.mem_map.mp (hperm.mem_iff.mpr (List.mem_map.mpr (hb.listed socket hsocket)))

end Clients

/-- a call that goes wrong keeps no books -/
def BookkeptState (r : Except Fault Clients) : Prop := ∃ s, r = .ok s ∧ s.Bookkept

theorem bookkeptState_ok_iff (s : Clients) : BookkeptState (.ok s) ↔ s.Bookkept := by
  constructor
  · rintro ⟨s', heq, hb⟩
    obtain rfl := Except.ok.inj heq
    exact hb
  · exact fun hb => ⟨s, rfl, hb⟩

/-- a handler that keeps the books where it returns -/
theorem bookkeptState_map_iff {α : Type} {r : Except Fault α} {f : α → Clients}
    (h : ∀ x, r = .ok x → (f x).Bookkept) : BookkeptState (r.map f) ↔ ∃ x, r = .ok x := by
  constructor
  · rintro ⟨s, hs, _⟩
    exact exists_map_ok_iff.mp ⟨s, hs⟩
  · rintro ⟨x, hx⟩
    exact ⟨f x, map_eq_ok_iff.mpr ⟨x, hx, rfl⟩, h x hx⟩

namespace Clients
variable {s : Clients}

theorem bookkept_connect_iff (h : s.Consistent) (hb : s.Bookkept) {newSocket : ℕ}
    (hnew : newSocket ∉ s.opened) (added : Bool) :
    (s.connect newSocket added).Bookkept ↔ s.Orderly (.connect newSocket added) := by
  cases added with
  | false =>
    refine iff_of_false (fun hb' => ?_) fun horderly => by cases horderly.1
    obtain ⟨c, hc, hsocket⟩ := hb'.listed newSocket List.mem_cons_self
    exact hnew (hsocket ▸ h.opened c hc)
  | true =>
    rw [(h.connect hnew true).bookkept_iff, connections_connect, List.length_append]
    constructor
    · exact fun hlen => ⟨rfl, hlen.1⟩
    · rintro ⟨_, hlen⟩
      refine ⟨hlen, fun socket hsocket => ?_⟩
      rcases List.mem_cons.mp hsocket with rfl | hsocket
      · exact ⟨_, List.mem_append_right _ (List.mem_singleton_self _), rfl⟩
      · obtain ⟨c, hc, rfl⟩ := hb.listed socket hsocket
        exact ⟨c, List.mem_append_left _ hc, rfl⟩

theorem bookkept_application_iff (h : s.Consistent) (hb : s.Bookkept) (socket : ℕ)
    (sPackage : List UInt8) (now : ℤ) : BookkeptState (s.handle (.application socket sPackage now)) ↔
      s.Orderly (.application socket sPackage now) := by
  show BookkeptState ((s.controller.handleAppPackage socket sPackage now).map _) ↔ _ ≤ _
  rw [← s.controller.exists_handleAppPackage_iff socket sPackage now]
  refine bookkeptState_map_iff fun x hx => ?_
  have hconsistent := h.register hx
  rcases register_cases hx with heq | ⟨package, c, complete, hc, hrequested, heq⟩
  · rw [heq]
    exact hb
  · obtain ⟨rfl, _⟩ := AppConnection.create_eq_some hrequested
    rw [heq] at hconsistent ⊢
    exact hb.of_perm hconsistent rfl rfl (map_put_perm hc)

theorem bookkept_mipd_iff (h : s.Consistent) (hb : s.Bookkept) (mipAddress : MIPAddress)
    (dataSize : UInt16) (data : List UInt8) :
    BookkeptState (s.handle (.mipd mipAddress dataSize data)) ↔
      s.Orderly (.mipd mipAddress dataSize data) := by
  show _ ↔ _ ≤ _
  rw [h.handle_mipd, ← MIPTPPackage.exists_deserialize_iff]
  refine bookkeptState_map_iff fun package _ => ?_
  exact hb.of_perm (h.dispatched package) rfl rfl
    (List.Perm.of_eq (s.sockets_dispatched package))

/-- the descriptor of a connection that is taken out stays open -/
theorem bookkept_disconnect_iff (h : s.Consistent) (hb : s.Bookkept) (socket : ℕ) :
    BookkeptState (s.handle (.disconnect socket)) ↔ s.Orderly (.disconnect socket) := by
  refine (bookkeptState_ok_iff _).trans ⟨fun hb' c hc hsocket => ?_, fun hnone => ?_⟩
  · obtain ⟨d, hd, heq⟩ := hb'.listed socket (hsocket ▸ h.opened c hc)
    exact (h.unique.mem_erase.mp hd).2 heq
  · have herase : erase AppConnection.socket socket s.connections = s.connections :=
      List.eraseP_of_forall_not fun c hc => by simpa using hnone c hc
    rw [MIPTPAppController.disconnect]
    show Bookkept { s with controller := { s.controller with connections := erase _ _ s.connections } }
    rw [herase]
    exact hb

theorem bookkept_completes_iff (hb : s.Bookkept) :
    BookkeptState (s.handle .completes) ↔ s.Orderly .completes := by
  constructor
  · rintro ⟨s', hs', _⟩
    exact s.exists_handle_completes_iff.mp ⟨s', hs'⟩
  · intro hnone
    rw [handle_completes hnone]
    exact ⟨s, rfl, hb⟩

/-- **One call keeps the books exactly where it is orderly.** -/
theorem bookkept_handle_iff (h : s.Consistent) (hb : s.Bookkept) {ev : ControllerEvent}
    (hev : s.Enabled ev) : BookkeptState (s.handle ev) ↔ s.Orderly ev := by
  cases ev with
  | connect newSocket added =>
    exact (bookkeptState_ok_iff _).trans (bookkept_connect_iff h hb hev added)
  | application socket sPackage now => exact bookkept_application_iff h hb socket sPackage now
  | mipd mipAddress dataSize data => exact bookkept_mipd_iff h hb mipAddress dataSize data
  | disconnect socket => exact bookkept_disconnect_iff h hb socket
  | completes => exact bookkept_completes_iff hb

end Clients

/-! ## runs -/

def OrderlyStep : Except Fault Clients → ControllerEvent → Prop
  | .ok s, ev => s.Orderly ev
  | .error _, _ => True

def ConsistentState (r : Except Fault Clients) : Prop := ∀ s, r = .ok s → s.Consistent

theorem consistentState_start (maxConnections : ℕ) :
    ConsistentState (.ok (Clients.start maxConnections)) := by
  intro s hs
  obtain rfl := Except.ok.inj hs
  exact Clients.consistent_start maxConnections

theorem ConsistentState.step {r r' : Except Fault Clients} {ev : ControllerEvent}
    (h : ConsistentState r) (hstep : ClientsStep r ev r') : ConsistentState r' := by
  obtain ⟨s, rfl, hev, rfl⟩ := hstep
  exact fun s' hs' => (h s rfl).handle hev hs'

theorem bookkeptState_start (maxConnections : ℕ) :
    BookkeptState (.ok (Clients.start maxConnections)) :=
  ⟨_, rfl, (Clients.consistent_start maxConnections).bookkept_iff.mpr
    ⟨Nat.zero_le _, List.forall_mem_nil _⟩⟩

/-- **How long the books are kept**, in every run of the handlers. -/
theorem books_kept_iff (maxConnections : ℕ) {tr : List (ControllerEvent × Except Fault Clients)}
    (hr : Run ClientsStep (.ok (Clients.start maxConnections)) tr) :
    (∀ x ∈ tr, BookkeptState x.2) ↔ Meets OrderlyStep (.ok (Clients.start maxConnections)) tr := by
  refine Run.meets_iff (I := ConsistentState) (fun r ev r' hI _ _ hstep => hI.step hstep)
    (fun r ev r' hI hP hstep => ?_) hr (consistentState_start maxConnections)
    (bookkeptState_start maxConnections)
  obtain ⟨s, rfl, hev, rfl⟩ := hstep
  exact Clients.bookkept_handle_iff (hI s rfl) ((bookkeptState_ok_iff s).mp hP) hev

/-- a sender to port 10 of the address 5, with one byte of data -/
def senderPackage : List UInt8 := [10, 0, 5, 1, 0, 0, 0, 1, 0, 65]

/-- a client that connects and sends one byte -/
theorem run_oneSender : Run ClientsStep (.ok (Clients.start 10))
    [(.connect 7 true, .ok ((Clients.start 10).connect 7 true)),
      (.application 7 senderPackage 0, ((Clients.start 10).connect 7 true).handle
        (.application 7 senderPackage 0))] :=
  Run.cons ⟨_, rfl, List.not_mem_nil, rfl⟩ (Run.cons ⟨_, rfl, trivial, rfl⟩ (Run.nil _))

theorem bookkept_oneSender : ∃ tr, Run ClientsStep (.ok (Clients.start 10)) tr ∧
    (∀ x ∈ tr, BookkeptState x.2) ∧ tr.length = 2 :=
  have hsize : 9 + (ClientPackage.serializedGetDataSize senderPackage).toNat
      ≤ senderPackage.length := by decide
  ⟨_, run_oneSender, (books_kept_iff 10 run_oneSender).mpr
    ⟨⟨rfl, Nat.zero_lt_succ 9⟩, hsize, trivial⟩, rfl⟩

/-- **A client that leaves keeps its descriptor.** -/
theorem descriptor_leaks :
    Run ClientsStep (.ok (Clients.start 10))
      [(.connect 7 true, .ok ((Clients.start 10).connect 7 true)),
        (.disconnect 7, ((Clients.start 10).connect 7 true).handle (.disconnect 7))] ∧
    ¬ ∀ (maxConnections : ℕ) (tr : List (ControllerEvent × Except Fault Clients)),
      Run ClientsStep (.ok (Clients.start maxConnections)) tr → ∀ x ∈ tr, BookkeptState x.2 := by
  have hr : Run ClientsStep (.ok (Clients.start 10))
      [(.connect 7 true, .ok ((Clients.start 10).connect 7 true)),
        (.disconnect 7, ((Clients.start 10).connect 7 true).handle (.disconnect 7))] :=
    Run.cons ⟨_, rfl, List.not_mem_nil, rfl⟩ (Run.cons ⟨_, rfl, trivial, rfl⟩ (Run.nil _))
  refine ⟨hr, fun hall => ?_⟩
  obtain ⟨s, hs, hb⟩ := hall 10 _ hr _ (List.mem_cons_of_mem _ List.mem_cons_self)
  obtain rfl := Except.ok.inj hs
  obtain ⟨c, hc, _⟩ := hb.listed 7 List.mem_cons_self
  cases hc

theorem clientsStep_connect {s : Clients} {n : ℕ} (h : ∀ socket ∈ s.opened, socket < n) :
    ClientsStep (.ok s) (.connect n true) (.ok (s.connect n true)) :=
  ⟨s, rfl, fun hn => Nat.lt_irrefl n (h n hn), rfl⟩

/-- one client after the other -/
theorem exists_run_connect (k : ℕ) {s : Clients} {n : ℕ} (h : ∀ socket ∈ s.opened, socket < n) :
    ∃ tr, Run ClientsStep (.ok s) tr ∧ ∃ x ∈ tr, ∃ s', x.2 = .ok s' ∧
      s'.controller.maxConnections = s.controller.maxConnections ∧
      s'.connections.length = s.connections.length + (k + 1) := by
  have hlen : (s.connect n true).connections.length = s.connections.length + 1 :=
    List.length_append
  induction k generalizing s n with
  | zero =>
    exact ⟨_, Run.cons (clientsStep_connect h) (Run.nil _), _, List.mem_cons_self, _, rfl, rfl, hlen⟩
  | succ k ih =>
    have hopened : ∀ socket ∈ (s.connect n true).opened, socket < n + 1 := by
      intro socket hsocket
      rcases List.mem_cons.mp hsocket with rfl | hsocket
      · exact Nat.lt_succ_self socket
      · exact Nat.lt_succ_of_lt (h socket hsocket)
    obtain ⟨tr, hr, x, hx, s', hs', hmax, hlen'⟩ := ih hopened List.length_append
    refine ⟨_, Run.cons (clientsStep_connect h) hr, x, List.mem_cons_of_mem _ hx, s', hs', hmax, ?_⟩
    rw [hlen', hlen]
    omega

/-- **No limit is kept**: one client more than there may be is let in. -/
theorem limit_exceeded (maxConnections : ℕ) :
    ∃ tr, Run ClientsStep (.ok (Clients.start maxConnections)) tr ∧ ∃ x ∈ tr, ∃ s, x.2 = .ok s ∧
      s.controller.maxConnections < s.connections.length := by
  obtain ⟨tr, hr, x, hx, s, hs, hmax, hlen⟩ :=
    exists_run_connect maxConnections (s := Clients.start maxConnections) (n := 0) nofun
  refine ⟨tr, hr, x, hx, s, hs, ?_⟩
  rw [hmax, hlen]
  show maxConnections < 0 + (maxConnections + 1)
  omega

end MipStack
