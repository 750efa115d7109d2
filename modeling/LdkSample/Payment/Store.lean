import LdkSample.Wire

/-!
# Payment stores

The node's own record of its payments (`main.rs`): one map from payment hash to
`PaymentInfo` for what it receives, one from payment id for what it sends, and the
bytes each map is written as. The bytes follow the `impl_writeable_tlv_based`
macros: a total length and then type-length-value records in ascending type order.
-/

namespace LdkSample

/-- `[u8; 32]`. -/
abbrev Bytes32 := Vector UInt8 32

structure PaymentHash where
  bytes : Bytes32
  deriving DecidableEq

structure PaymentId where
  bytes : Bytes32
  deriving DecidableEq

structure PaymentPreimage where
  bytes : Bytes32
  deriving DecidableEq

structure PaymentSecret where
  bytes : Bytes32
  deriving DecidableEq

inductive HTLCStatus where
  | pending
  | succeeded
  | failed
  deriving DecidableEq, Repr

structure MillisatAmount where
  msat : Option UInt64
  deriving DecidableEq, Repr

structure PaymentInfo where
  preimage : Option PaymentPreimage
  secret : Option PaymentSecret
  status : HTLCStatus
  amtMsat : MillisatAmount
  deriving DecidableEq

structure InboundPaymentInfoStorage where
  payments : HashMap PaymentHash PaymentInfo
  deriving DecidableEq

structure OutboundPaymentInfoStorage where
  payments : HashMap PaymentId PaymentInfo
  deriving DecidableEq

/-! ## Encoding -/

def HTLCStatus.tag : HTLCStatus → Nat
  | pending => 0
  | succeeded => 1
  | failed => 2

def HTLCStatus.encode (s : HTLCStatus) : Bytes := beBytes 1 s.tag ++ tlvStream []

def MillisatAmount.encode (a : MillisatAmount) : Bytes :=
  encodeOption (fun n => beBytes 8 n.toNat) a.msat

def PaymentInfo.encode (p : PaymentInfo) : Bytes :=
  tlvStream [
    (0, encodeOption (fun x => x.bytes.toList) p.preimage),
    (2, encodeOption (fun x => x.bytes.toList) p.secret),
    (4, p.status.encode),
    (6, p.amtMsat.encode)]

def InboundPaymentInfoStorage.encode (i : InboundPaymentInfoStorage) : Bytes :=
  tlvStream [(0, encodeMap (fun h => h.bytes.toList) PaymentInfo.encode i.payments)]

def OutboundPaymentInfoStorage.encode (o : OutboundPaymentInfoStorage) : Bytes :=
  tlvStream [(0, encodeMap (fun i => i.bytes.toList) PaymentInfo.encode o.payments)]

end LdkSample
