import MipStack.Mipd.Link
import MipStack.Mipd.Routing
import MipStack.Commons.MIPDMessage

/-!
# The server of mipd and its handlers (`server.c`, `forwarding.c`, `routing.c`, `app_connection.c`)

* `MIPDServer`         connected sockets, interface table, MIP-ARP cache and forward queue;
* `Effect`             what a handler writes to a socket, in order;
* `requestForwarding`, `handleForwardResponse`   the lookup of a next hop in two halves;
* `handleDomainSocketRequest`, `createQueueable` a message of an application;
* `handleRawSocketFrame`   a frame from the network: its bytes are received into a package, which is
                       handled by its `tra` field (`handleReceivedPackage`);
* `neighbor`           the lookups shared by all functions that send to a neighbour.

A handler gives the server after the call and its effects, or a `Fault`: the return value -1 of the
source leads to the error label of the main loop and is `errorExit`.  Allocation succeeds.
-/

namespace MipStack

/-! ## data -/

structure ForwardQueueEntry where
  destination : MIPAddress
  package : MIPPackage
  ageMilli : ℤ
  deriving DecidableEq

/-- the three sockets are the `connected_socket_fd` of each `LocalSocket`, -1 when there is none -/
structure MIPDServer where
  appSocket : ℤ
  routeSocket : ℤ
  forwardSocket : ℤ
  iTable : InterfaceTable
  cache : MipArpCache
  forwardQueue : Queue ForwardQueueEntry
  deriving DecidableEq

/-- what one handler sees of its surroundings: the bytes at the MAC pointers, the descriptors that
can be written to, the readings of the clock, the heap behind the receive buffer -/
structure Env where
  layout : Layout
  writeOk : ℤ → Bool
  clock : Clock
  behind : Behind

/-- a write to a socket; `writeForward` is one byte, the destination, written on behalf of the
package that `request_forwarding` is called with -/
inductive Effect
  | sendRaw (sock : ℤ) (package : MIPPackage)
  | writeRoute (fd : ℤ) (bytes : List UInt8)
  | writeForward (fd : ℤ) (destination : MIPAddress) (package : MIPPackage)
  | sendApp (fd : ℤ) (bytes : List UInt8)
  deriving DecidableEq

def CACHE_UPDATE_FREQ_MILLI : ℕ := 10000

namespace MIPDServer

/-- `MIPDServer_create`, with nobody connected -/
def create (table : InterfaceTable) : MIPDServer :=
  ⟨-1, -1, -1, table, MipArpCache.create CACHE_UPDATE_FREQ_MILLI, []⟩

/-! ## forwarding -/

/-- write to the forward socket; no descriptor is -1 -/
def writes (env : Env) (s : MIPDServer) : Bool := s.forwardSocket ≠ -1 && env.writeOk s.forwardSocket

/-- `ForwardQueue_push`; it returns no value, and the check of its return code passes -/
def push (s : MIPDServer) (now : ℤ) (package : MIPPackage) : MIPDServer :=
  { s with forwardQueue := s.forwardQueue.send ⟨package.mHeader.dstAddr, package, now⟩ }

/-- 1 and the queued package, or 0 when the request cannot be written -/
def requestForwarding (env : Env) (s : MIPDServer) (destination : MIPAddress)
    (package : MIPPackage) : MIPDServer × List Effect :=
  if s.writes env then
    (s.push (env.clock 0) package, [.writeForward s.forwardSocket destination package])
  else (s, [])

/-- `ForwardQueue_pop`: `none` for `NULL` -/
def pop (s : MIPDServer) : Option (MIPPackage × MIPDServer) :=
  s.forwardQueue.recv.map fun x => (x.1.package, { s with forwardQueue := x.2 })

def forwardFound (forwardResponse : MIPAddress) : Bool := forwardResponse ≠ 255

/-- interface and cache entry for a neighbour in the cache; the record of an interface that is not
in the table has no socket name -/
def neighbor (s : MIPDServer) (address : MIPAddress) :
    Except Fault (InterfaceRecord × MipArpCacheEntry) :=
  match (s.cache.queryMipAddressPos address).bind fun pos => s.cache.entries[pos]? with
  | none => .error .errorExit
  | some e =>
    match interfaceForSocket s.iTable (s.cache.queryMipAddressSrcSocket address) with
    | none => .error .nullDereference
    | some i => .ok (i, e)

/-- the package with its new Ethernet frame, and the source address if it has none -/
def load (i : InterfaceRecord) (e : MipArpCacheEntry) (package : MIPPackage) : MIPPackage :=
  { package with
    eFrame := createEthernetFrame e.dstInterface i.soName
    mHeader :=
      if package.mHeader.srcAddr = 255 then { package.mHeader with srcAddr := i.mipAddress }
      else package.mHeader }

def loadForwardPackage (s : MIPDServer) (forwardPackage : Option MIPPackage)
    (nextHop : MIPAddress) : Except Fault MIPPackage :=
  if s.cache.queryMipAddressSrcSocket nextHop = -1 then .error .errorExit
  else match s.neighbor nextHop with
    | .error f => .error f
    | .ok (i, e) =>
      match forwardPackage with
      | none => .error .nullDereference
      | some package => .ok (load i e package)

def handleForwardResponse (s : MIPDServer) (nextHop : MIPAddress) :
    Except Fault (MIPDServer × List Effect) :=
  let popped := s.pop
  let s' := (popped.map Prod.snd).getD s
  match s'.loadForwardPackage (popped.map Prod.fst) nextHop with
  | .error f => .error f
  | .ok package =>
    let sock := s'.cache.queryMipAddressSrcSocket nextHop
    if sock = -1 then .error .errorExit
    else match s'.neighbor nextHop with
      | .error f => .error f
      | .ok _ => .ok (s', [.sendRaw sock package])

/-! ## route tables -/

/-- the array has room for 64 entries, and is poisoned once for each interface -/
def broadcastRouteTable (env : Env) (s : MIPDServer) (tablePackage : MIPRouteTablePackage) :
    Except Fault (MIPDServer × List Effect) :=
  if s.iTable = [] ∨ tablePackage.numEntries.toNat ≤ MIP_TABLE_PACKAGE_ENTRIES_MAX_SIZE then
    .ok (s, s.iTable.zipIdx.filterMap fun (i, pos) =>
      (MIPPackage.createRaw env.layout i.mipAddress (.interface pos) 255 .etherBroadcast
        (routePackage s.cache i tablePackage).toBytes 2).map (.sendRaw i.rawSocket))
  else .error .outOfBounds

/-- the message buffer is 1496 bytes long and zero past the payload -/
def recvRouteTableBroadcast (s : MIPDServer) (package : MIPPackage) : List Effect :=
  if s.routeSocket = -1 then []
  else [.writeRoute s.routeSocket (package.message.takeD SIZEOF_MIPROUTETABLEPACKAGE 0)]

/-! ## applications -/

/-- 0 without an application; `MIPDMessage_create` refuses more than 1496 bytes -/
def handlePackageForApplication (s : MIPDServer) (receivedPackage : MIPPackage) :
    Except Fault (List Effect) :=
  if s.appSocket = -1 then .ok []
  else match MIPDMessage.create receivedPackage.mHeader.srcAddr receivedPackage.payloadBytes
      receivedPackage.message with
    | none => .error .errorExit
    | some message => .ok [.sendApp s.appSocket message.serialize]

def createQueueable (env : Env) (message : MIPDMessage) : Option MIPPackage :=
  MIPPackage.createRaw env.layout 255 .defaultMac message.mipAddress .defaultMac message.data 3

/-- `none` for the return value 0: the address is not that of a neighbour -/
def handleDomainSocketRequest (s : MIPDServer) (message : MIPDMessage) :
    Except Fault (Option (List Effect)) :=
  let sock := s.cache.queryMipAddressSrcSocket message.mipAddress
  if sock = -1 then .ok none
  else match s.neighbor message.mipAddress with
    | .error f => .error f
    | .ok (i, e) =>
      match MIPPackage.create (createEthernetFrame e.dstInterface i.soName)
          (createTransportMipHeader i.mipAddress message.mipAddress) message.data with
      | none => .error .nullDereference
      | some package => .ok (some [.sendRaw sock package])

/-- the application branch of the main loop; `available` is what the socket holds, nothing when
the application has closed it -/
def handleApplicationData (env : Env) (s : MIPDServer) (available : List UInt8) :
    Except Fault (MIPDServer × List Effect) :=
  let readBuffer := available.take MAX_MIPMESSAGE_DATA_SIZE
  if readBuffer.length = 0 then .ok ({ s with appSocket := -1 }, [])
  else if readBuffer.length < SIZEOF_MIPDMESSAGE then .ok (s, [])
  else match MIPDMessage.deserialize readBuffer with
    | none => .error .nullDereference
    | some message =>
      match s.handleDomainSocketRequest message with
      | .error f => .error f
      | .ok (some sent) => .ok (s, sent)
      | .ok none =>
        match createQueueable env message with
        | none => .error .errorExit
        | some package => .ok (s.requestForwarding env package.mHeader.dstAddr package)

/-! ## frames -/

/-- the response goes out first; the return value of the append is ignored -/
def handleMipArpRequest (env : Env) (s : MIPDServer) (receivedPackage : MIPPackage) (pos : ℕ)
    (i : InterfaceRecord) : Except Fault (MIPDServer × List Effect) :=
  match MIPPackage.createRaw env.layout i.mipAddress (.interface pos)
      receivedPackage.mHeader.srcAddr .receivedSource [] 0 with
  | none => .error .errorExit
  | some response =>
    match s.cache.appendToCache (env.clock 0) i.rawSocket receivedPackage.mHeader.srcAddr
        i.soName with
    | .error f => .error f
    | .ok (_, cache) => .ok ({ s with cache := cache }, [.sendRaw i.rawSocket response])

def handleMipArpResponse (env : Env) (s : MIPDServer) (sd : ℤ) (receivedPackage : MIPPackage)
    (i : InterfaceRecord) : Except Fault (MIPDServer × List Effect) :=
  match s.cache.appendToCache (env.clock 0) sd receivedPackage.mHeader.srcAddr i.soName with
  | .error f => .error f
  | .ok (rc, cache) => if rc = -1 then .error .errorExit else .ok ({ s with cache := cache }, [])

def decrementTtl (package : MIPPackage) : MIPPackage :=
  { package with mHeader := { package.mHeader with ttl := package.mHeader.ttl - 1 } }

def handleTransport (env : Env) (s : MIPDServer) (receivedPackage : MIPPackage) :
    Except Fault (MIPDServer × List Effect) :=
  if (getInterfacePosForMipAddress s.iTable receivedPackage.mHeader.dstAddr).isSome then
    match s.handlePackageForApplication receivedPackage with
    | .error f => .error f
    | .ok effects => .ok (s, effects)
  else if receivedPackage.mHeader.ttl = 0 then .ok (s, [])
  else .ok (s.requestForwarding env receivedPackage.mHeader.dstAddr (decrementTtl receivedPackage))

/-- what `handle_raw_socket_frame` does with the package that it has received on the descriptor `sd` -/
def handleReceivedPackage (env : Env) (s : MIPDServer) (sd : ℤ) (receivedPackage : MIPPackage) :
    Except Fault (MIPDServer × List Effect) :=
  match interfaceForSocket s.iTable sd with
  | none => .error .nullDereference
  | some i =>
    if receivedPackage.mHeader.tra = 0 then s.handleMipArpResponse env sd receivedPackage i
    else if receivedPackage.mHeader.tra = 1 then
      s.handleMipArpRequest env receivedPackage (getInterfacePosForSocket s.iTable sd) i
    else if receivedPackage.mHeader.tra = 2 then .ok (s, s.recvRouteTableBroadcast receivedPackage)
    else if receivedPackage.mHeader.tra = 3 then s.handleTransport env receivedPackage
    else .ok (s, [])

/-- the bytes of a frame on the descriptor `sd` of the table -/
def handleRawSocketFrame (env : Env) (s : MIPDServer) (sd : ℤ) (frame : List UInt8) :
    Except Fault (MIPDServer × List Effect) :=
  match receivePackage env.behind frame with
  | .error f => .error f
  | .ok receivedPackage => s.handleReceivedPackage env sd receivedPackage

/-! ## MIP-ARP rounds -/

def completeMipArp (s : MIPDServer) (now : ℤ) : MIPDServer × List Effect :=
  ({ s with cache := { s.cache with lastArp := toUnsigned now } },
    s.iTable.filterMap fun i =>
      (MIPPackage.createMipArpRequestPacket i.mipAddress i.interface).map (.sendRaw i.rawSocket))

/-- `update_arp_cache`, whose return value the main loop ignores -/
def updateArpCache (env : Env) (s : MIPDServer) : MIPDServer × List Effect :=
  let (clock, cache) := MipArpCache.purge env.clock 0 s.cache
  let s' := { s with cache := cache }
  if cache.shouldCompleteNewArp (clock 0) then s'.completeMipArp (clock 1) else (s', [])

end MIPDServer

end MipStack
