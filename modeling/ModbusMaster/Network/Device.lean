import ModbusMaster.Network.Address
namespace ModbusMaster

-- What one session serves: the remote end of a socket, or the one serial line
-- that all units share.
inductive Peer where
  | tcp (address : SocketAddress)
  | serial
  deriving Repr, DecidableEq, Inhabited

def Peer.text : Peer → String
  | tcp a => "tcp://" ++ a.text
  | serial => "serial"

def Peer.describe : Peer → String
  | tcp a => "Tcp(" ++ a.text ++ ")"
  | serial => "Serial"

structure DeviceAddress where
  session : Peer
  unit : UInt8
  deriving Repr, DecidableEq, Inhabited

def DeviceAddress.text (d : DeviceAddress) : String := d.session.text ++ "#" ++ toString d.unit.toNat

def DeviceAddress.describe (d : DeviceAddress) : String :=
  "DeviceId \x7b session: " ++ d.session.describe ++ ", unit_id: " ++ toString d.unit.toNat ++ " \x7d"

end ModbusMaster
