import LdkSample.Payment.Store

/-!
# Payment store files

The readers of what `PaymentInfo` and the two stores are written as, and
`read_inbound_payment_info` and `read_outbound_payment_info` (`disk.rs`). A store that has
been written is read back as the same map, and no strict prefix of the file is read at all
(`payment_files_round_trip`).
-/

namespace LdkSample

/-! ## Decoding -/

def HTLCStatus.read : Reader HTLCStatus := do
  let tag ← readBe 1
  if tag = 0 then tlvStruct [] fun _ => some .pending
  else if tag = 1 then tlvStruct [] fun _ => some .succeeded
  else if tag = 2 then tlvStruct [] fun _ => some .failed
  else failure

def MillisatAmount.read : Reader MillisatAmount :=
  MillisatAmount.mk <$> readOption (UInt64.ofNat <$> readBe 8)

def PaymentInfo.read : Reader PaymentInfo :=
  tlvStruct [0, 2, 4, 6] fun rs => do
    let preimage ← required 0 (readOption (PaymentPreimage.mk <$> readArray 32)) rs
    let secret ← required 2 (readOption (PaymentSecret.mk <$> readArray 32)) rs
    let status ← required 4 HTLCStatus.read rs
    let amtMsat ← required 6 MillisatAmount.read rs
    return { preimage, secret, status, amtMsat }

def readPayments {K : Type} [DecidableEq K] (readK : Reader K) : Reader (HashMap K PaymentInfo) :=
  tlvStruct [0] (required 0 (readMap readK PaymentInfo.read))

def InboundPaymentInfoStorage.read : Reader InboundPaymentInfoStorage :=
  InboundPaymentInfoStorage.mk <$> readPayments (PaymentHash.mk <$> readArray 32)

def OutboundPaymentInfoStorage.read : Reader OutboundPaymentInfoStorage :=
  OutboundPaymentInfoStorage.mk <$> readPayments (PaymentId.mk <$> readArray 32)

/-- `read_inbound_payment_info`, of the bytes of the file if it can be opened. -/
def readInboundPaymentInfo (file : Option Bytes) : InboundPaymentInfoStorage :=
  match file with
  | some bytes =>
    match InboundPaymentInfoStorage.read bytes with
    | some (info, _) => info
    | none => { payments := ∅ }
  | none => { payments := ∅ }

/-- `read_outbound_payment_info`, of the bytes of the file if it can be opened. -/
def readOutboundPaymentInfo (file : Option Bytes) : OutboundPaymentInfoStorage :=
  match file with
  | some bytes =>
    match OutboundPaymentInfoStorage.read bytes with
    | some (info, _) => info
    | none => { payments := ∅ }
  | none => { payments := ∅ }

/-! ## A payment -/

theorem reads_status (s : HTLCStatus) : Reads HTLCStatus.read s.encode s := by
  have hnil : Reads (tlvStruct [] fun _ => some s) (tlvStream []) s :=
    @reads_tlvStruct _ _ _ [] _ .nil (fun r hr => (nomatch hr)) (by decide) rfl
  cases s with
  | pending => exact (reads_be (k := 1) (n := 0) (by decide)).bind hnil
  | succeeded => exact (reads_be (k := 1) (n := 1) (by decide)).bind hnil
  | failed => exact (reads_be (k := 1) (n := 2) (by decide)).bind hnil

theorem reads_amount (a : MillisatAmount) : Reads MillisatAmount.read a.encode a := by
  have hread : ∀ n : UInt64, Reads (UInt64.ofNat <$> readBe 8) (beBytes 8 n.toNat) n := by
    intro n
    have h := (reads_be (k := 8) n.toNat_lt).map UInt64.ofNat
    rwa [UInt64.ofNat_toNat] at h
  have hopt := reads_option (o := a.msat) (fun n _ => hread n) fun n _ => by
    rw [beBytes_length]
    decide
  exact hopt.map MillisatAmount.mk

theorem bytes_length_le {α : Type} (f : α → Bytes32) (o : Option α) :
    (encodeOption (fun x => (f x).toList) o).length ≤ 41 :=
  encodeOption_length_le (n := 32) (by simp) o

theorem status_length (s : HTLCStatus) : s.encode.length = 2 := by
  cases s <;> rfl

theorem amount_length_le (a : MillisatAmount) : a.encode.length ≤ 17 :=
  encodeOption_length_le (n := 8) (fun _ => Nat.le_of_eq (beBytes_length 8 _)) a.msat

/-- The records a payment is written as. -/
def PaymentInfo.records (p : PaymentInfo) : List Record :=
  [⟨0, encodeOption (fun x => x.bytes.toList) p.preimage,
      Nat.lt_of_le_of_lt (bytes_length_le PaymentPreimage.bytes _) (by decide)⟩,
    ⟨2, encodeOption (fun x => x.bytes.toList) p.secret,
      Nat.lt_of_le_of_lt (bytes_length_le PaymentSecret.bytes _) (by decide)⟩,
    ⟨4, p.status.encode, by rw [status_length]; decide⟩,
    ⟨6, p.amtMsat.encode, Nat.lt_of_le_of_lt (amount_length_le _) (by decide)⟩]

theorem PaymentInfo.encode_eq (p : PaymentInfo) : p.encode = tlvStream (p.records.map Record.pair) :=
  rfl

theorem PaymentInfo.records_length_lt (p : PaymentInfo) :
    (recordCodec.encode p.records).length < 2 ^ 64 := by
  have hvalues : ∀ r ∈ p.records, r.value.length ≤ 41 := by
    unfold records
    simp only [List.forall_mem_cons]
    refine ⟨bytes_length_le _ _, bytes_length_le _ _, ?_, ?_, List.forall_mem_nil _⟩
    · rw [status_length]
      omega
    · have := amount_length_le p.amtMsat
      omega
  have hle := records_length_le hvalues
  have hlen : p.records.length = 4 := rfl
  omega

theorem reads_bytes {α : Type} (mk : Bytes32 → α) (f : α → Bytes32) (h : ∀ x, mk (f x) = x)
    (o : Option α) :
    Reads (readOption (mk <$> readArray 32)) (encodeOption (fun x => (f x).toList) o) o := by
  apply reads_option
  · intro x _
    have hread := (reads_array (f x)).map mk
    rwa [h] at hread
  · intro x _
    rw [Vector.length_toList]
    decide

theorem reads_info (p : PaymentInfo) : Reads PaymentInfo.read p.encode p := by
  rw [p.encode_eq]
  apply reads_tlvStruct
  · simp [PaymentInfo.records]
  · simp [PaymentInfo.records]
  · exact p.records_length_lt
  · have hpreimage := (reads_bytes PaymentPreimage.mk PaymentPreimage.bytes (fun _ => rfl) p.preimage).exactly
    have hsecret := (reads_bytes PaymentSecret.mk PaymentSecret.bytes (fun _ => rfl) p.secret).exactly
    simp [PaymentInfo.records, required, hpreimage, hsecret, (reads_status _).exactly,
      (reads_amount _).exactly]

/-! ## A store -/

section Payments

variable {K : Type} {bytes : K → Bytes32}

theorem entries_length_le (bytes : K → Bytes32) (m : HashMap K PaymentInfo) :
    m.entries.length ≤ (encodeMap (fun k => (bytes k).toList) PaymentInfo.encode m).length := by
  have hentries : ∀ l : List (Sigma fun _ : K => PaymentInfo),
      l.length ≤ (l.flatMap fun e => (bytes e.1).toList ++ e.2.encode).length := by
    intro l
    induction l with
    | nil => exact Nat.zero_le _
    | cons e l ih =>
      rw [List.flatMap_cons, List.length_append, List.length_append, Vector.length_toList,
        List.length_cons]
      omega
  unfold encodeMap
  rw [List.length_append]
  exact Nat.le_add_left_of_le (hentries m.entries)

/-- Bytes that a `Vec` held are short enough for their lengths to be written in full. -/
theorem payments_length_lt {m : HashMap K PaymentInfo} {file : Bytes}
    (h : toVec (tlvStream [(0, encodeMap (fun k => (bytes k).toList) PaymentInfo.encode m)]) =
      some file) :
    (encodeMap (fun k => (bytes k).toList) PaymentInfo.encode m).length + 18 < 2 ^ 64 := by
  obtain ⟨hlt, -⟩ := toVec_eq_some h
  simp only [tlvStream, tlvRecord, List.flatMap_cons, List.length_append] at hlt
  omega

variable [DecidableEq K] {mk : Bytes32 → K}

theorem reads_payments (h : ∀ k, mk (bytes k) = k) (m : HashMap K PaymentInfo)
    (hlen : (encodeMap (fun k => (bytes k).toList) PaymentInfo.encode m).length + 18 < 2 ^ 64) :
    Reads (readPayments (mk <$> readArray 32))
      (tlvStream [(0, encodeMap (fun k => (bytes k).toList) PaymentInfo.encode m)])
      (insertAll m.entries ∅) := by
  have hentries := entries_length_le bytes m
  have hmap : Reads (readMap (mk <$> readArray 32) PaymentInfo.read)
      (encodeMap (fun k => (bytes k).toList) PaymentInfo.encode m) (insertAll m.entries ∅) := by
    apply reads_map
    · omega
    · intro e _
      have hread := (reads_array (bytes e.1)).map mk
      rwa [h] at hread
    · exact fun e _ => reads_info e.2
  let r : Record := ⟨0, encodeMap (fun k => (bytes k).toList) PaymentInfo.encode m, by omega⟩
  have hsum : (recordCodec.encode [r]).length ≤ [r].length * (r.value.length + 18) :=
    records_length_le fun r' hr' => by rw [List.mem_singleton.mp hr']
  apply @reads_tlvStruct _ _ _ [r]
  · exact List.pairwise_singleton _ r
  · simp [r]
  · have : r.value.length = (encodeMap (fun k => (bytes k).toList) PaymentInfo.encode m).length := rfl
    rw [List.length_singleton] at hsum
    omega
  · simp [r, required, hmap.exactly]

theorem stable_payments (readK : Reader K) : Stable (readPayments readK) := stable_tlvStruct

end Payments

theorem reads_inbound (m : InboundPaymentInfoStorage) {bytes : Bytes}
    (h : toVec m.encode = some bytes) :
    Reads InboundPaymentInfoStorage.read bytes ⟨insertAll m.payments.entries ∅⟩ := by
  obtain ⟨-, rfl⟩ := toVec_eq_some h
  exact (reads_payments (fun _ => rfl) m.payments (payments_length_lt h)).map
    InboundPaymentInfoStorage.mk

theorem reads_outbound (m : OutboundPaymentInfoStorage) {bytes : Bytes}
    (h : toVec m.encode = some bytes) :
    Reads OutboundPaymentInfoStorage.read bytes ⟨insertAll m.payments.entries ∅⟩ := by
  obtain ⟨-, rfl⟩ := toVec_eq_some h
  exact (reads_payments (fun _ => rfl) m.payments (payments_length_lt h)).map
    OutboundPaymentInfoStorage.mk

/-- **The payment files round-trip.** What a store is written as is read as the same map with
nothing left over, and no strict prefix of it is read at all. -/
theorem payment_files_round_trip :
    (∀ (m : InboundPaymentInfoStorage) (bytes : Bytes), toVec m.encode = some bytes →
      (∃ m', InboundPaymentInfoStorage.read bytes = some (m', []) ∧
        m'.payments.toFinmap = m.payments.toFinmap) ∧
      ∀ p, p <+: bytes → p ≠ bytes → InboundPaymentInfoStorage.read p = none) ∧
    ∀ (m : OutboundPaymentInfoStorage) (bytes : Bytes), toVec m.encode = some bytes →
      (∃ m', OutboundPaymentInfoStorage.read bytes = some (m', []) ∧
        m'.payments.toFinmap = m.payments.toFinmap) ∧
      ∀ p, p <+: bytes → p ≠ bytes → OutboundPaymentInfoStorage.read p = none := by
  constructor
  · intro m bytes h
    have hreads := reads_inbound m h
    refine ⟨⟨_, hreads.apply, toFinmap_insertAll m.payments⟩, fun p hp hne => ?_⟩
    exact hreads.prefix_eq_none ((stable_payments _).map _) hp hne
  · intro m bytes h
    have hreads := reads_outbound m h
    refine ⟨⟨_, hreads.apply, toFinmap_insertAll m.payments⟩, fun p hp hne => ?_⟩
    exact hreads.prefix_eq_none ((stable_payments _).map _) hp hne

/-- A payment of each kind: a preimage without a secret, a secret without one, and neither. -/
def samplePayments : List (Bytes32 × PaymentInfo) :=
  [(Vector.replicate 32 1, ⟨some ⟨Vector.replicate 32 4⟩, none, .succeeded, ⟨some 7⟩⟩),
    (Vector.replicate 32 2, ⟨none, some ⟨Vector.replicate 32 5⟩, .pending, ⟨none⟩⟩),
    (Vector.replicate 32 3, ⟨none, none, .failed, ⟨some 900⟩⟩)]

def sampleInbound : InboundPaymentInfoStorage :=
  ⟨samplePayments.foldl (fun m p => m.insert ⟨p.1⟩ p.2) ∅⟩

def sampleOutbound : OutboundPaymentInfoStorage :=
  ⟨samplePayments.foldl (fun m p => m.insert ⟨p.1⟩ p.2) ∅⟩

theorem payment_files_round_trip_three :
    sampleInbound.payments.entries.length = 3 ∧ sampleOutbound.payments.entries.length = 3 ∧
    ((∃ m', InboundPaymentInfoStorage.read sampleInbound.encode = some (m', []) ∧
        m'.payments.toFinmap = sampleInbound.payments.toFinmap) ∧
      ∀ p, p <+: sampleInbound.encode → p ≠ sampleInbound.encode →
        InboundPaymentInfoStorage.read p = none) ∧
    (∃ m', OutboundPaymentInfoStorage.read sampleOutbound.encode = some (m', []) ∧
        m'.payments.toFinmap = sampleOutbound.payments.toFinmap) ∧
      ∀ p, p <+: sampleOutbound.encode → p ≠ sampleOutbound.encode →
        OutboundPaymentInfoStorage.read p = none :=
  ⟨by decide, by decide, payment_files_round_trip.1 _ _ (by decide +kernel),
    payment_files_round_trip.2 _ _ (by decide +kernel)⟩

end LdkSample
