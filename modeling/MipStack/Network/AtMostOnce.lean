import MipStack.Library.Reach
import MipStack.Network.Traffic

/-!
# A message has at most one copy

* `Traffic.Sound`      the invariant of the packages: one copy of each message, its frames make up a
                       journey, a queued package waits after the last of them;
* `Traffic.Sound.enqueue`, `.transmit`, `.deliver`   what has no copy may be given one;
* `MipNet.Sound`       the same for a network, each forward queue being what the traffic says;
* `NetStep.sound`      **every step keeps it**, by one lemma for each kind of step;
* `reachable_sound`, `exists_respond`   it holds in every run, and the traffic never holds up a server.
-/

namespace MipStack
open Library

/-! ## the invariant of the packages -/

theorem sublist_of_removed {α : Type*} {l before after : List α} {a : α}
    (h : l = before ++ a :: after) : (before ++ after).Sublist l := by
  rw [h]
  exact (List.sublist_cons_self a after).append_left before

namespace Traffic
variable {Node : Type}

def present (t : Traffic Node) (id : ℕ) : ℕ := t.copies id + t.deliveries id

/-- **The invariant of the packages.** -/
structure Sound (N : UnicastNetwork Node) (t : Traffic Node) : Prop where
  queued : ∀ w ∈ t.queued, ∃ m, t.parsed w.id = some m ∧ Waits m (t.log w.id) w.package
  flying : ∀ f ∈ t.flying, ∃ l, t.log f.id = l ++ [f]
  logs : ∀ id, t.log id ≠ [] → ∃ m, t.parsed id = some m ∧ Journey N.toNetwork m (t.log id)
  once : ∀ id, t.present id ≤ 1
  fresh : ∀ id, t.reads.length ≤ id → t.present id = 0 ∧ t.log id = []

variable {N : UnicastNetwork Node} {t : Traffic Node} {id : ℕ} {m : MIPDMessage}

theorem present_enqueue (t : Traffic Node) (w : Waiting Node) (id : ℕ) :
    (t.enqueue w).present id = t.present id + if w.id = id then 1 else 0 := by
  simp only [present, copies, deliveries, enqueue, List.countP_append, List.countP_singleton,
    decide_eq_true_eq]
  omega

theorem present_transmit (t : Traffic Node) (f : Flight Node) (id : ℕ) :
    (t.transmit f).present id = t.present id + if f.id = id then 1 else 0 := by
  simp only [present, copies, deliveries, transmit, List.countP_append, List.countP_singleton,
    decide_eq_true_eq]
  omega

theorem present_deliver (t : Traffic Node) (x : Node) (i id : ℕ) :
    (t.deliver x i).present id = t.present id + if i = id then 1 else 0 := by
  simp only [present, copies, deliveries, deliver, List.countP_append, List.countP_singleton,
    decide_eq_true_eq]
  omega

theorem log_transmit (t : Traffic Node) (f : Flight Node) (id : ℕ) :
    (t.transmit f).log id = t.log id ++ if f.id = id then [f] else [] := by
  simp only [log, transmit, List.filter_append, List.filter_singleton, Bool.cond_decide]

theorem queued_ne (h : t.present id = 0) : ∀ w ∈ t.queued, w.id ≠ id := by
  have h0 : t.queued.countP (fun w => w.id = id) = 0 := by
    rw [present, copies] at h
    omega
  simpa using List.countP_eq_zero.mp h0

theorem flying_ne (h : t.present id = 0) : ∀ f ∈ t.flying, f.id ≠ id := by
  have h0 : t.flying.countP (fun f => f.id = id) = 0 := by
    rw [present, copies] at h
    omega
  simpa using List.countP_eq_zero.mp h0

theorem lt_of_parsed (h : t.parsed id = some m) : id < t.reads.length := by
  obtain ⟨bytes, hbytes, _⟩ := Option.bind_eq_some_iff.mp h
  exact (List.getElem?_eq_some_iff.mp hbytes).1

theorem parsed_read (bytes : List UInt8) (h : t.parsed id = some m) :
    (t.read bytes).parsed id = some m := by
  rw [parsed, read]
  dsimp only
  rw [List.getElem?_append_left (lt_of_parsed h)]
  exact h

theorem parsed_read_self {bytes : List UInt8} (hlen : SIZEOF_MIPDMESSAGE ≤ bytes.length)
    (h : MIPDMessage.deserialize bytes = some m) :
    (t.read bytes).parsed t.reads.length = some m := by
  rw [parsed, read]
  dsimp only
  rw [List.getElem?_concat_length, Option.bind_some, if_pos hlen]
  exact h

theorem sound_start : Sound N ⟨[], [], [], [], []⟩ where
  queued _ hw := absurd hw List.not_mem_nil
  flying _ hf := absurd hf List.not_mem_nil
  logs _ h := absurd rfl h
  once _ := Nat.zero_le 1
  fresh _ _ := ⟨rfl, rfl⟩

namespace Sound

theorem read (h : Sound N t) (bytes : List UInt8) : Sound N (t.read bytes) where
  queued w hw := by
    obtain ⟨m, hm, hwaits⟩ := h.queued w hw
    exact ⟨m, parsed_read bytes hm, hwaits⟩
  flying := h.flying
  logs id hlog := by
    obtain ⟨m, hm, hj⟩ := h.logs id hlog
    exact ⟨m, parsed_read bytes hm, hj⟩
  once := h.once
  fresh id hid := by
    have hlen : (t.read bytes).reads.length = t.reads.length + 1 := List.length_append
    exact h.fresh id (by omega)

theorem sublist (h : Sound N t) {queued : List (Waiting Node)} {flying : List (Flight Node)}
    (hq : queued.Sublist t.queued) (hf : flying.Sublist t.flying) :
    Sound N { t with queued := queued, flying := flying } := by
  have hle : ∀ id, Traffic.present { t with queued := queued, flying := flying } id ≤ t.present id :=
    fun id => Nat.add_le_add_right (Nat.add_le_add hq.countP_le hf.countP_le) _
  exact
    { queued := fun w hw => h.queued w (hq.mem hw)
      flying := fun f hmem => h.flying f (hf.mem hmem)
      logs := h.logs
      once := fun id => (hle id).trans (h.once id)
      fresh := fun id hid => ⟨Nat.le_zero.mp ((hle id).trans (h.fresh id hid).1.le), (h.fresh id hid).2⟩ }

/-- when the one copy of a message is taken out of the queue, none is left -/
theorem present_pop (h : Sound N t) {before after : List (Waiting Node)} {w : Waiting Node}
    (hq : t.queued = before ++ w :: after) :
    Traffic.present { t with queued := before ++ after } w.id = 0 := by
  have honce := h.once w.id
  simp only [present, copies, deliveries, hq, List.countP_append, List.countP_cons, decide_true,
    if_true] at honce ⊢
  omega

theorem present_land (h : Sound N t) {before after : List (Flight Node)} {f : Flight Node}
    (hf : t.flying = before ++ f :: after) :
    Traffic.present { t with flying := before ++ after } f.id = 0 := by
  have honce := h.once f.id
  simp only [present, copies, deliveries, hf, List.countP_append, List.countP_cons, decide_true,
    if_true] at honce ⊢
  omega

theorem present_le (h : Sound N t) (h0 : t.present id = 0) (k : ℕ) :
    t.present k + (if id = k then 1 else 0) ≤ 1 := by
  have := h.once k
  split
  · rename_i heq
    rw [← heq, h0]
  · omega

theorem present_fresh (h : Sound N t) (hid : id < t.reads.length) {k : ℕ} (hk : t.reads.length ≤ k) :
    t.present k + (if id = k then 1 else 0) = 0 := by
  rw [(h.fresh k hk).1, if_neg (by omega)]

theorem enqueue (h : Sound N t) {w : Waiting Node} (h0 : t.present w.id = 0)
    (hm : t.parsed w.id = some m) (hw : Waits m (t.log w.id) w.package) : Sound N (t.enqueue w) where
  queued v hv := by
    rcases List.mem_append.mp hv with hold | hnew
    · exact h.queued v hold
    · rw [List.mem_singleton.mp hnew]
      exact ⟨m, hm, hw⟩
  flying := h.flying
  logs := h.logs
  once k := by
    rw [present_enqueue]
    exact h.present_le h0 k
  fresh k hk := by
    rw [present_enqueue]
    exact ⟨h.present_fresh (lt_of_parsed hm) hk, (h.fresh k hk).2⟩

theorem deliver (h : Sound N t) (h0 : t.present id = 0) (hid : id < t.reads.length) (x : Node) :
    Sound N (t.deliver x id) where
  queued := h.queued
  flying := h.flying
  logs := h.logs
  once k := by
    rw [present_deliver]
    exact h.present_le h0 k
  fresh k hk := by
    rw [present_deliver]
    exact ⟨h.present_fresh hid hk, (h.fresh k hk).2⟩

theorem transmit (h : Sound N t) {f : Flight Node} (h0 : t.present f.id = 0)
    (hm : t.parsed f.id = some m) (hj : Journey N.toNetwork m (t.log f.id ++ [f])) :
    Sound N (t.transmit f) := by
  have hself : (t.transmit f).log f.id = t.log f.id ++ [f] := by
    rw [log_transmit, if_pos rfl]
  have hother : ∀ k, k ≠ f.id → (t.transmit f).log k = t.log k := by
    intro k hk
    rw [log_transmit, if_neg (Ne.symm hk), List.append_nil]
  refine ⟨fun w hw => ?_, fun g hg => ?_, fun k hlog => ?_, fun k => ?_, fun k hk => ?_⟩
  · rw [hother w.id (queued_ne h0 w hw)]
    exact h.queued w hw
  · rcases List.mem_append.mp hg with hold | hnew
    · rw [hother g.id (flying_ne h0 g hold)]
      exact h.flying g hold
    · rw [List.mem_singleton.mp hnew]
      exact ⟨t.log f.id, hself⟩
  · by_cases hk : k = f.id
    · rw [hk, hself]
      exact ⟨m, hm, hj⟩
    · rw [hother k hk] at hlog ⊢
      exact h.logs k hlog
  · rw [present_transmit]
    exact h.present_le h0 k
  · have hlt : f.id < t.reads.length := lt_of_parsed hm
    have hk' : t.reads.length ≤ k := hk
    rw [present_transmit, hother k (by omega)]
    exact ⟨h.present_fresh hlt hk', (h.fresh k hk').2⟩

theorem journey (h : Sound N t) {l : List (Flight Node)} {f : Flight Node}
    (hl : t.log id = l ++ [f]) : ∃ m, t.parsed id = some m ∧ Journey N.toNetwork m (l ++ [f]) := by
  obtain ⟨m, hm, hj⟩ := h.logs id (by rw [hl]; simp)
  exact ⟨m, hm, hl ▸ hj⟩

theorem journey_of_parsed (h : Sound N t) (hm : t.parsed id = some m) :
    Journey N.toNetwork m (t.log id) := by
  by_cases hlog : t.log id = []
  · rw [hlog]
    exact Journey.nil
  · obtain ⟨m', hm', hj⟩ := h.logs id hlog
    obtain rfl := Option.some.inj (hm'.symm.trans hm)
    exact hj

end Sound

/-! ## what the effects of an event add -/

theorem recordAll_control {effects : List Effect} (he : ∀ x ∈ effects, x.IsControl)
    (t : Traffic Node) (x : Node) (id : ℕ) : t.recordAll x id effects = t := by
  induction effects generalizing t with
  | nil => rfl
  | cons effect effects ih =>
    have hone : record x id t effect = t := by
      cases effect with
      | sendRaw sock p => exact if_neg (he (.sendRaw sock p) List.mem_cons_self)
      | writeRoute fd bytes => rfl
      | writeForward fd d p => exact False.elim (he (.writeForward fd d p) List.mem_cons_self)
      | sendApp fd bytes => exact False.elim (he (.sendApp fd bytes) List.mem_cons_self)
    show recordAll (record x id t effect) x id effects = t
    rw [hone]
    exact ih (fun y hy => he y (List.mem_cons_of_mem effect hy)) t

theorem recordAll_send {p : MIPPackage} (htra : p.mHeader.tra = 3) (t : Traffic Node) (x : Node)
    (id : ℕ) (sock : ℤ) :
    t.recordAll x id [.sendRaw sock p] = t.transmit ⟨id, x, sock, p⟩ := if_pos htra

variable [DecidableEq Node]

theorem packagesAt_record (x y : Node) (id : ℕ) (t : Traffic Node) (effect : Effect) :
    (record x id t effect).packagesAt y
      = t.packagesAt y ++ if x = y then requestsOf [effect] else [] := by
  cases effect with
  | sendRaw sock p =>
    rw [record]
    split <;> simp [transmit, packagesAt, requestsOf]
  | writeRoute fd bytes => simp [record, requestsOf]
  | writeForward fd d p =>
    by_cases hxy : x = y
    · simp [record, enqueue, packagesAt, requestsOf, hxy]
    · simp [record, enqueue, packagesAt, hxy]
  | sendApp fd bytes => simp [record, deliver, packagesAt, requestsOf]

/-- an event adds the packages of its requests to the queue of its node -/
theorem packagesAt_recordAll (t : Traffic Node) (x y : Node) (id : ℕ) (effects : List Effect) :
    (t.recordAll x id effects).packagesAt y
      = t.packagesAt y ++ if x = y then requestsOf effects else [] := by
  induction effects generalizing t with
  | nil => simp [recordAll, requestsOf]
  | cons effect effects ih =>
    show (recordAll (record x id t effect) x id effects).packagesAt y = _
    rw [ih, packagesAt_record, List.append_assoc]
    split
    · rw [requestsOf, requestsOf, requestsOf, ← List.filterMap_append]
      rfl
    · rfl

end Traffic

/-! ## the invariant of a network -/

variable {Node : Type} [DecidableEq Node]

/-- the server of `x` knows its sockets, and `packages` are those in its forward queue -/
def ServerSound (N : UnicastNetwork Node) (x : Node) (packages : List MIPPackage) :
    Option MIPDServer → Prop
  | none => packages = []
  | some server =>
    server.iTable = N.interfaces x ∧ server.SocketsKnown ∧ packages = server.waiting

structure MipNet.Sound (N : UnicastNetwork Node) (s : MipNet Node) : Prop where
  servers : ∀ x, ServerSound N x (s.traffic.packagesAt x) (s.servers x)
  traffic : s.traffic.Sound N

variable {N : UnicastNetwork Node} {s s' : MipNet Node}

theorem MipNet.sound_start : (MipNet.start : MipNet Node).Sound N :=
  ⟨fun _ => rfl, Traffic.sound_start⟩

/-- local events send and queue nothing -/
theorem Event.IsLocal.control {server server' : MIPDServer} {env : Env} {ev : Event}
    {effects : List Effect} (hev : ev.IsLocal server)
    (h : server.handleEvent env ev = .ok (server', effects)) :
    server'.waiting = server.waiting ∧ ∀ e ∈ effects, e.IsControl := by
  cases MIPDServer.handled h with
  | control hev' hq ht hc he => exact ⟨MIPDServer.waiting_congr hq, he⟩
  | deliver hp htra hown hm =>
    rw [(receivePackage_inv hp).2.1] at htra
    exact absurd htra hev
  | transit hp htra httl hw =>
    rw [(receivePackage_inv hp).2.1] at htra
    exact absurd htra hev
  | respond hr hi he ha hf => exact absurd hev hf
  | notFound hr hf => exact absurd hev hf
  | @direct available m i e hlen hd hi he ha =>
    have happ : server.appSocket = -1 := hev
    rw [MIPDServer.handleEvent, if_pos happ] at h
    exact absurd (Prod.mk.inj (Except.ok.inj h)).2 (by simp)
  | @request available m eFrame hlen hd hw =>
    have happ : server.appSocket = -1 := hev
    rw [MIPDServer.handleEvent, if_pos happ] at h
    exact absurd (Prod.mk.inj (Except.ok.inj h)).2 (by simp)

namespace MipNet.Sound

theorem server (hs : s.Sound N) {x : Node} {server : MIPDServer} (hx : s.servers x = some server) :
    server.iTable = N.interfaces x ∧ server.SocketsKnown ∧
      s.traffic.packagesAt x = server.waiting := by
  have hserver := hs.servers x
  rw [hx] at hserver
  exact hserver

/-- one server and its queue have changed -/
theorem update (hs : s.Sound N) {x : Node} {o : Option MIPDServer} {t : Traffic Node}
    (hx : ServerSound N x (t.packagesAt x) o)
    (hother : ∀ y, y ≠ x → t.packagesAt y = s.traffic.packagesAt y) (ht : t.Sound N) :
    MipNet.Sound N ⟨Function.update s.servers x o, t⟩ := by
  refine ⟨(Function.forall_update_iff s.servers fun y o => ServerSound N y (t.packagesAt y) o).mpr
    ⟨hx, fun y hy => ?_⟩, ht⟩
  rw [hother y hy]
  exact hs.servers y

/-- a server that has handled an event, its packages and requests being those of its queue -/
theorem after (hs : s.Sound N) {x : Node} {server server' : MIPDServer} {t : Traffic Node} {id : ℕ}
    {env : Env} {ev : Event} {effects : List Effect} (hx : s.servers x = some server)
    (h : server.handleEvent env ev = .ok (server', effects))
    (hq : server'.waiting = t.packagesAt x ++ requestsOf effects)
    (hother : ∀ y, y ≠ x → t.packagesAt y = s.traffic.packagesAt y)
    (ht : (t.recordAll x id effects).Sound N) : (s.after x server' t id effects).Sound N := by
  obtain ⟨htable, hknown, _⟩ := hs.server hx
  obtain ⟨htable', hknown'⟩ := hknown.event h
  refine hs.update ⟨htable'.trans htable, hknown', ?_⟩ (fun y hy => ?_) ht
  · rw [Traffic.packagesAt_recordAll, if_pos rfl, hq]
  · rw [Traffic.packagesAt_recordAll, if_neg (Ne.symm hy), List.append_nil]
    exact hother y hy

theorem after_event (hs : s.Sound N) {x : Node} {server server' : MIPDServer} {t : Traffic Node}
    {id : ℕ} {env : Env} {ev : Event} {effects : List Effect} (hx : s.servers x = some server)
    (h : server.handleEvent env ev = .ok (server', effects))
    (hq : server'.waiting = server.waiting ++ requestsOf effects)
    (hqueued : t.queued = s.traffic.queued) (ht : (t.recordAll x id effects).Sound N) :
    (s.after x server' t id effects).Sound N := by
  have hpackages : ∀ y, t.packagesAt y = s.traffic.packagesAt y := fun y => by
    rw [Traffic.packagesAt, hqueued]
    rfl
  refine hs.after hx h ?_ (fun y _ => hpackages y) ht
  rw [hq, hpackages, (hs.server hx).2.2]

theorem interface_of_sock (hs : s.Sound N) {x : Node} {server : MIPDServer} {i : InterfaceRecord}
    {e : MipArpCacheEntry} {a : MIPAddress} (hx : s.servers x = some server)
    (he : e ∈ server.cache.entries) (ha : e.mipAddress = a)
    (hi : interfaceForSocket server.iTable (server.cache.queryMipAddressSrcSocket a) = some i) :
    i ∈ N.interfaces x ∧ (i.rawSocket : ℤ) = server.cache.queryMipAddressSrcSocket a := by
  obtain ⟨htable, hknown, _⟩ := hs.server hx
  obtain ⟨pos, hpos⟩ := Option.isSome_iff_exists.mp
    (MipArpCache.queryMipAddressPos_isSome.mpr ⟨e, he, ha⟩)
  obtain ⟨e', he', _, hsock⟩ := MipArpCache.queryMipAddressSrcSocket_of_some hpos
  obtain ⟨i', hmem, hi', hfd⟩ := interfaceForSocket_of_mem (hknown e' he')
  rw [← hsock] at hi' hfd
  obtain rfl := Option.some.inj (hi'.symm.trans hi)
  exact ⟨htable ▸ hmem, hfd⟩

/-- the oldest package of `x` is the one that its server pops -/
theorem pop (hs : s.Sound N) {x : Node} {server : MIPDServer} {entry : ForwardQueueEntry}
    {q : Queue ForwardQueueEntry} {before after : List (Waiting Node)} {w : Waiting Node}
    (hx : s.servers x = some server) (hr : server.forwardQueue.recv = some (entry, q))
    (hq : s.traffic.queued = before ++ w :: after) (hw : w.node = x)
    (hfirst : ∀ v ∈ before, v.node ≠ x) :
    w.package = entry.package ∧
      Traffic.packagesAt { s.traffic with queued := before ++ after } x
        = ({ server with forwardQueue := q } : MIPDServer).waiting := by
  have hbefore : before.filter (fun v => v.node = x) = [] :=
    List.filter_eq_nil_iff.mpr fun v hv => by simpa using hfirst v hv
  have hpackages : s.traffic.packagesAt x
      = w.package :: Traffic.packagesAt { s.traffic with queued := before ++ after } x := by
    rw [Traffic.packagesAt, Traffic.packagesAt, hq, List.filter_append, List.filter_append,
      hbefore, List.filter_cons_of_pos (by simpa using hw)]
    rfl
  rw [(hs.server hx).2.2, MIPDServer.waiting_of_recv hr] at hpackages
  obtain ⟨hpackage, hrest⟩ := List.cons.inj hpackages
  exact ⟨hpackage.symm, hrest.symm⟩

theorem packagesAt_pop {before after : List (Waiting Node)} {w : Waiting Node} {x : Node}
    (hq : s.traffic.queued = before ++ w :: after) (hw : w.node = x) {y : Node} (hxy : y ≠ x) :
    Traffic.packagesAt { s.traffic with queued := before ++ after } y = s.traffic.packagesAt y := by
  rw [Traffic.packagesAt, Traffic.packagesAt, hq, List.filter_append, List.filter_append,
    List.filter_cons_of_neg (by simpa [hw] using Ne.symm hxy)]

/-! ## one lemma for each kind of step -/

theorem boot (hs : s.Sound N) {x : Node} (h : s.servers x = none) (now : ℤ) :
    MipNet.Sound N { s with
      servers := Function.update s.servers x (some (MIPDServer.start (N.interfaces x) now)) } := by
  have hempty := hs.servers x
  rw [h] at hempty
  refine hs.update ⟨rfl, MIPDServer.socketsKnown_start (N.interfaces x) now, ?_⟩ (fun _ _ => rfl)
    hs.traffic
  exact hempty

theorem stop (hs : s.Sound N) (x : Node) : MipNet.Sound N ⟨Function.update s.servers x none,
    { s.traffic with queued := s.traffic.queued.filter fun w => w.node ≠ x }⟩ := by
  refine hs.update ?_ (fun y hy => ?_) (hs.traffic.sublist List.filter_sublist (List.Sublist.refl _))
  · show ((s.traffic.queued.filter fun w => w.node ≠ x).filter fun w => w.node = x).map
      Waiting.package = []
    rw [List.filter_filter]
    simp
  · show ((s.traffic.queued.filter fun w => w.node ≠ x).filter fun w => w.node = y).map
      Waiting.package = (s.traffic.queued.filter fun w => w.node = y).map Waiting.package
    rw [List.filter_filter]
    congr 1
    refine List.filter_congr fun w _ => ?_
    by_cases hw : w.node = y
    · simp [hw, hy]
    · simp [hw]

theorem lose (hs : s.Sound N) {before after : List (Flight Node)} {f : Flight Node}
    (h : s.traffic.flying = before ++ f :: after) :
    MipNet.Sound N { s with traffic := { s.traffic with flying := before ++ after } } := by
  exact ⟨hs.servers, hs.traffic.sublist (List.Sublist.refl _) (sublist_of_removed h)⟩

theorem read (hs : s.Sound N) {x : Node} {env : Env} {available : List UInt8}
    {server server' : MIPDServer} {effects : List Effect} (hx : s.servers x = some server)
    (h : server.handleEvent env (.appData available) = .ok (server', effects)) :
    (s.after x server' (s.traffic.read (available.take MAX_MIPMESSAGE_DATA_SIZE))
      s.traffic.reads.length effects).Sound N := by
  have hhandled := MIPDServer.handled h
  have ht := hs.traffic.read (available.take MAX_MIPMESSAGE_DATA_SIZE)
  obtain ⟨hpresent, hlog⟩ := hs.traffic.fresh s.traffic.reads.length le_rfl
  have hnil : (s.traffic.read (available.take MAX_MIPMESSAGE_DATA_SIZE)).log
      s.traffic.reads.length = [] := hlog
  refine hs.after_event hx h (hhandled.waiting (by simp)) rfl ?_
  cases hhandled with
  | control hev hq htable hc he =>
    rw [Traffic.recordAll_control he]
    exact ht
  | @direct available m i e hlen hd hi he ha =>
    obtain ⟨hmem, hsock⟩ := hs.interface_of_sock hx he ha hi
    rw [Traffic.recordAll_send rfl]
    refine ht.transmit hpresent (Traffic.parsed_read_self hlen hd) ?_
    rw [hnil]
    exact Journey.first (carries_transport _ _ m) rfl ⟨i, hmem, hsock, rfl⟩
  | @request available m eFrame hlen hd hw =>
    refine ht.enqueue hpresent (Traffic.parsed_read_self hlen hd) ?_
    rw [hnil]
    exact Waits.origin (carries_transport _ _ m) rfl rfl

theorem respond (hs : s.Sound N) {x : Node} {env : Env} {nextHop : MIPAddress}
    {server server' : MIPDServer} {effects : List Effect} {before after : List (Waiting Node)}
    {w : Waiting Node} (hx : s.servers x = some server) (hf : server.forwardSocket ≠ -1)
    (hq : s.traffic.queued = before ++ w :: after) (hw : w.node = x)
    (hfirst : ∀ v ∈ before, v.node ≠ x)
    (h : server.handleEvent env (.forwardData (some nextHop)) = .ok (server', effects)) :
    (s.after x server' { s.traffic with queued := before ++ after } w.id effects).Sound N := by
  have hhandled := MIPDServer.handled h
  have ht := hs.traffic.sublist (sublist_of_removed hq) (List.Sublist.refl s.traffic.flying)
  have hother : ∀ y, y ≠ x → Traffic.packagesAt { s.traffic with queued := before ++ after } y
      = s.traffic.packagesAt y := fun y hy => packagesAt_pop hq hw hy
  cases hhandled with
  | control hev hqueue htable hc he => exact absurd (hev nextHop rfl) hf
  | @respond nextHop entry q i e hr hi he ha hf =>
    obtain ⟨hpackage, hrest⟩ := hs.pop hx hr hq hw hfirst
    obtain ⟨hmem, hsock⟩ := hs.interface_of_sock hx he ha hi
    obtain ⟨m, hm, hwaits⟩ := hs.traffic.queued w (by rw [hq]; simp)
    have htra : (MIPDServer.load i e entry.package).mHeader.tra = 3 := by
      rw [mHeader_load, ← hpackage]
      exact hwaits.carries.tra
    refine hs.after hx h ?_ hother ?_
    · rw [hrest]
      exact (List.append_nil _).symm
    · rw [Traffic.recordAll_send htra, ← hpackage]
      exact ht.transmit (hs.traffic.present_pop hq) hm
        (hwaits.send (hs.traffic.journey_of_parsed hm) hmem hsock e w.id)
  | @notFound nextHop entry q hr hf =>
    obtain ⟨_, hrest⟩ := hs.pop hx hr hq hw hfirst
    refine hs.after hx h ?_ hother ht
    rw [hrest]
    exact (List.append_nil _).symm

theorem arrive (hs : s.Sound N) {y : Node} {env : Env} {sock : ℤ} {f : Flight Node}
    {frame : List UInt8} {server server' : MIPDServer} {effects : List Effect}
    {before after : List (Flight Node)} (hf : s.traffic.flying = before ++ f :: after)
    (hintact : receivePackage env.behind frame = .ok f.package.wire.received)
    (hy : s.servers y = some server)
    (h : server.handleEvent env (.rawFrame sock frame) = .ok (server', effects)) :
    (s.after y server' { s.traffic with flying := before ++ after } f.id effects).Sound N := by
  have hhandled := MIPDServer.handled h
  have ht := hs.traffic.sublist (List.Sublist.refl s.traffic.queued) (sublist_of_removed hf)
  obtain ⟨l, hl⟩ := hs.traffic.flying f (by rw [hf]; simp)
  obtain ⟨m, hm, hj⟩ := hs.traffic.journey hl
  refine hs.after_event hy h (hhandled.waiting (by simp)) rfl ?_
  cases hhandled with
  | control hev hq htable hc he =>
    rw [Traffic.recordAll_control he]
    exact ht
  | deliver hp htra hown hmessage =>
    exact ht.deliver (hs.traffic.present_land hf) (Traffic.lt_of_parsed hm) y
  | transit hp htra httl hw =>
    obtain rfl := Except.ok.inj (hintact.symm.trans hp)
    refine ht.enqueue (hs.traffic.present_land hf) hm ?_
    show Waits m (s.traffic.log f.id) (MIPDServer.decrementTtl f.package.wire.received)
    rw [hl]
    exact hj.wait httl

end MipNet.Sound

/-- **Every step keeps the invariant.** -/
theorem NetStep.sound (h : NetStep N.toNetwork s s') (hs : s.Sound N) : s'.Sound N := by
  cases h with
  | boot h => exact hs.boot h _
  | stop => exact hs.stop _
  | lose h => exact hs.lose h
  | internal hx hev h =>
    obtain ⟨hwaiting, hcontrol⟩ := hev.control h
    refine hs.after_event hx h ?_ rfl ?_
    · rw [hwaiting, requestsOf_control hcontrol, List.append_nil]
    · rw [Traffic.recordAll_control hcontrol]
      exact hs.traffic
  | read hx happ h => exact hs.read hx h
  | respond hx hf hq hw hfirst h => exact hs.respond hx hf hq hw hfirst h
  | arrive hf hl hsock hintact hy h => exact hs.arrive hf hintact hy h

/-! ## runs -/

/-- the states of a network in which no mipd has run before -/
def MipNet.Reachable (N : UnicastNetwork Node) (s : MipNet Node) : Prop :=
  Reach (fun s => s = MipNet.start) (NetStep N.toNetwork) s

theorem reachable_sound (h : s.Reachable N) : s.Sound N :=
  Reach.invariant (fun _ h0 => h0 ▸ MipNet.sound_start) (fun _ _ _ hs hstep => hstep.sound hs) h

/-- a local event changes one server and no traffic -/
theorem exists_internal (h : s.Reachable N) {x : Node} {env : Env} {ev : Event}
    {server server' : MIPDServer} {effects : List Effect} (hx : s.servers x = some server)
    (hlocal : ev.IsLocal server) (hev : server.handleEvent env ev = .ok (server', effects)) :
    ∃ s' : MipNet Node, s'.Reachable N ∧ s'.servers x = some server' ∧ s'.traffic = s.traffic := by
  obtain ⟨_, hcontrol⟩ := hlocal.control hev
  exact ⟨_, Reach.next h (NetStep.internal hx hlocal hev), Function.update_self x _ s.servers,
    Traffic.recordAll_control hcontrol s.traffic x _⟩

end MipStack
