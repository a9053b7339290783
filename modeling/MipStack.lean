import MipStack.Library.Reach
import MipStack.Library.Hops
import MipStack.Library.Keyed
import MipStack.Routerd.Lookup
import MipStack.Routerd.Server
import MipStack.Miptpd.Server
import MipStack.Miptpd.Segmentation
import MipStack.Miptpd.Window
import MipStack.Miptpd.Acknowledgement
import MipStack.Miptpd.Timeout
import MipStack.Miptpd.Registration
import MipStack.Miptpd.Completion
import MipStack.Miptpd.Interface
import MipStack.Miptpd.Bookkeeping
import MipStack.Miptpd.Ports
import MipStack.Mipd.ErrorExit
import MipStack.Mipd.LockStep
import MipStack.Mipd.AppSocket
import MipStack.Mipd.DirectSend
import MipStack.Mipd.Poisoning
import MipStack.Mipd.Addressing
import MipStack.Mipd.HostileFrame
import MipStack.Network.LoopFree
import MipStack.Network.ForwardedOnce
import MipStack.Network.ArpMaintenance
import MipStack.Network.RoutePackage
import MipStack.Network.Delivery
import MipStack.Routerd.StoredServer
import MipStack.Miptpd.Independence
