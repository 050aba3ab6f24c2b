import OrderDispatch.Order.Payload
import OrderDispatch.Order.Report
import OrderDispatch.Ledger.Entry
import OrderDispatch.Proofs.Json.Echo

/-!
# Rows, read back

What reading makes of the rows that the stores write. Texts, times, names and tables come back as
they were; doubles come back as `Binary64.reread?` says, and a row with a double that is no number
is not read at all.

    reread? e = some e  for ledger entries and entries of a history
    reread? o = some o' → o' is o but for its places, its items and its amounts   (reread?_order)
-/

namespace OrderDispatch

open Json (Fills Echoes)

/-! ## Names -/

instance : Rereads OrderStatus where
  reread? := some
  full s := .text s.name
  decode_full s := by cases s <;> rfl
  opens s := Json.opens_text s.name
  echoes s := Json.echoes_choice _ _ (by cases s <;> decide)

instance : Rereads OrderKind where
  reread? := some
  full k := .text k.name
  decode_full k := by cases k <;> rfl
  opens k := Json.opens_text k.name
  echoes k := Json.echoes_choice _ _ (by cases k <;> decide)

instance : Rereads PaymentMethod where
  reread? := some
  full m := .text m.name
  decode_full m := by cases m <;> rfl
  opens m := Json.opens_text m.name
  echoes m := Json.echoes_choice _ _ (by cases m <;> decide)

/-! ## Fields -/

theorem Timestamp.echoes (t : Timestamp) :
    Echoes Shape.signed64.read t.encode.chars (some t.encode) := by
  have hlow := Int64.minValue_le_toInt t
  have hhigh := Int64.toInt_le t
  exact Json.echoes_whole _ _ _ hlow hhigh ⟨hlow, by
    have : (UInt64.size : Int) = 18446744073709551616 := rfl
    have : Int64.maxValue.toInt = 9223372036854775807 := rfl
    omega⟩

theorem Timestamp.decode?_encode (t : Timestamp) : Timestamp.decode? t.encode = some t := by
  show some (Int64.ofInt t.toInt) = some t
  rw [Int64.ofInt_toInt]

theorem mapM_text?_entries (es : List (String × String)) :
    (es.map fun (k, v) => (k, Json.text v)).mapM (fun (k, v) => v.text?.map (k, ·)) = some es := by
  induction es with
  | nil => rfl
  | cons e es ih =>
    rw [List.map_cons, List.mapM_cons, ih]
    rfl

theorem Extras.decode?_encode (t : Extras) : Extras.decode? (Extras.encode t) = some t := by
  unfold Extras.decode? Extras.encode
  simp only [Json.record?, Option.bind_eq_bind, Option.bind_some, mapM_text?_entries,
    Table.ofList_entries]
  rfl

/-- A field for named texts is found empty when it is left out. -/
theorem Extras.fills (name : String) (t : Extras) :
    Fills [.defaulted name .table (.record [])] (Extras.fieldOf name t)
      (some [(name, Extras.encode t)]) := by
  unfold Extras.fieldOf
  split
  · next h =>
    have hnil : t.entries = [] := by simpa using h
    have hencode : Extras.encode t = .record [] := by
      unfold Extras.encode
      rw [hnil]
      rfl
    rw [hencode]
    exact .absent (.defaulted name .table (.record [])) _ rfl .done
  · exact .given (.defaulted name .table (.record [])) _ _ (Json.echoes_table t) .done

/-- A field for an optional text is found null when it is left out. -/
theorem fills_optionalTextField (name : String) (s : Option String) {fields : List (Field Shape)}
    {written : List (String × Json)} {result : Option (List (String × Json))}
    (h : Fills fields written result) :
    Fills (.nullable name .text :: fields) (optionalTextField name s ++ written)
      (result.map ((name, Json.ofOption .text s) :: ·)) := by
  cases s with
  | none => exact .absent (.nullable name .text) .null rfl h
  | some s =>
    exact .given (.nullable name .text) (.text s) (some (.text s))
      (Json.echoes_optional _ _ _ (Json.opens_text s) (Json.echoes_text s)) h

theorem optional?_ofOption (s : Option String) :
    (Json.ofOption Json.text s).optional? Json.text? = some s := by
  cases s <;> rfl

/-! ## Places and items -/

instance : Rereads Location where
  reread? l := do
    return { l with
      latitude := ← Binary64.reread? l.latitude
      longitude := ← Binary64.reread? l.longitude }
  full l := .record [
    ("latitude", .real l.latitude),
    ("longitude", .real l.longitude),
    ("address", .text l.address),
    ("postal_code", .text l.postalCode),
    ("city", .text l.city),
    ("country", .text l.country),
    ("additional_info", Extras.encode l.additionalInfo)]
  decode_full l := by
    simp [Coded.decode?, Json.get?, List.lookup, Json.real?, Json.text?, Extras.decode?_encode]
  opens l := Json.opens_record _
  echoes l := by
    have h := Json.echoes_record _ _ _
      (.given (.required "latitude" .real) _ _ (Json.echoes_real l.latitude) <|
        .given (.required "longitude" .real) _ _ (Json.echoes_real l.longitude) <|
        .given (.defaulted "address" .text (.text "")) _ _ (Json.echoes_text l.address) <|
        .given (.defaulted "postal_code" .text (.text "")) _ _ (Json.echoes_text l.postalCode) <|
        .given (.defaulted "city" .text (.text "")) _ _ (Json.echoes_text l.city) <|
        .given (.defaulted "country" .text (.text "")) _ _ (Json.echoes_text l.country) <|
        Extras.fills "additional_info" l.additionalInfo) (by decide)
    refine Eq.mp (congrArg (Echoes _ _) ?_) h
    cases Binary64.reread? l.latitude <;> cases Binary64.reread? l.longitude <;> rfl

instance : Rereads OrderItem where
  reread? i := do
    return { i with
      quantity := ← Binary64.reread? i.quantity
      price := ← Binary64.reread? i.price }
  full i := .record [
    ("item_id", .text i.itemId),
    ("name", .text i.name),
    ("quantity", .real i.quantity),
    ("price", .real i.price),
    ("properties", Extras.encode i.properties)]
  decode_full i := by
    simp [Coded.decode?, Json.get?, List.lookup, Json.real?, Json.text?, Extras.decode?_encode]
  opens i := Json.opens_record _
  echoes i := by
    have h := Json.echoes_record _ _ _
      (.given (.defaulted "item_id" .text (.text "")) _ _ (Json.echoes_text i.itemId) <|
        .given (.required "name" .text) _ _ (Json.echoes_text i.name) <|
        .given (.required "quantity" .real) _ _ (Json.echoes_real i.quantity) <|
        .given (.required "price" .real) _ _ (Json.echoes_real i.price) <|
        Extras.fills "properties" i.properties) (by decide)
    refine Eq.mp (congrArg (Echoes _ _) ?_) h
    cases Binary64.reread? i.quantity <;> cases Binary64.reread? i.price <;> rfl

instance : Rereads HistoryEntry where
  reread? := some
  full e := .record [
    ("status", Rereads.full e.status),
    ("actor", .text e.actor),
    ("note", .text e.note),
    ("timestamp", e.timestamp.encode)]
  decode_full e := by
    show Option.bind _ _ = _
    simp [Json.get?, List.lookup, Json.text?, Rereads.decode_full, Timestamp.decode?_encode]
  opens e := Json.opens_record _
  echoes e := Json.echoes_record _ _ _
    (.given (.required "status" (Coded.shape OrderStatus)) _ _ (Rereads.echoes e.status) <|
      .given (.required "actor" .text) _ _ (Json.echoes_text e.actor) <|
      .given (.defaulted "note" .text (.text "")) _ _ (Json.echoes_text e.note) <|
      .given (.required "timestamp" .signed64) _ _ (Timestamp.echoes e.timestamp) .done) (by decide)

/-! ## Orders -/

instance : Rereads Order where
  reread? o := do
    return { o with
      pickup := ← Rereads.reread? o.pickup
      destination := ← Rereads.reread? o.destination
      items := ← Rereads.reread? o.items
      totalPrice := ← Binary64.reread? o.totalPrice
      platformFee := ← Binary64.reread? o.platformFee
      providerFee := ← Binary64.reread? o.providerFee }
  full o := .record [
    ("id", .text o.id),
    ("user_id", .text o.userId),
    ("provider_id", Json.ofOption .text o.providerId),
    ("order_type", Rereads.full o.kind),
    ("status", Rereads.full o.status),
    ("pickup_location", Rereads.full o.pickup),
    ("destination_location", Rereads.full o.destination),
    ("items", Rereads.full o.items),
    ("total_price", .real o.totalPrice),
    ("platform_fee", .real o.platformFee),
    ("provider_fee", .real o.providerFee),
    ("payment_method", Rereads.full o.paymentMethod),
    ("ledger_ref", Json.ofOption .text o.ledgerRef),
    ("notes", Json.ofOption .text o.notes),
    ("status_history", Rereads.full o.history),
    ("created_at", o.createdAt.encode),
    ("updated_at", o.updatedAt.encode)]
  decode_full o := by
    show Option.bind _ _ = _
    simp [Json.get?, List.lookup, Json.real?, Json.text?, optional?_ofOption,
      Rereads.decode_full, Timestamp.decode?_encode]
  opens o := Json.opens_record _
  echoes o := by
    have hhistory : Rereads.reread? o.history = some o.history := by
      show o.history.mapM some = some o.history
      induction o.history with
      | nil => rfl
      | cons e es ih => rw [List.mapM_cons, ih]; rfl
    have h := Json.echoes_record _ _ _
      (.given (.required "id" .text) _ _ (Json.echoes_text o.id) <|
        .given (.required "user_id" .text) _ _ (Json.echoes_text o.userId) <|
        fills_optionalTextField "provider_id" o.providerId <|
        .given (.required "order_type" (Coded.shape OrderKind)) _ _ (Rereads.echoes o.kind) <|
        .given (.required "status" (Coded.shape OrderStatus)) _ _ (Rereads.echoes o.status) <|
        .given (.required "pickup_location" (Coded.shape Location)) _ _ (Rereads.echoes o.pickup) <|
        .given (.required "destination_location" (Coded.shape Location)) _ _
          (Rereads.echoes o.destination) <|
        .given (.required "items" (Coded.shape (List OrderItem))) _ _ (Rereads.echoes o.items) <|
        .given (.required "total_price" .real) _ _ (Json.echoes_real o.totalPrice) <|
        .given (.required "platform_fee" .real) _ _ (Json.echoes_real o.platformFee) <|
        .given (.required "provider_fee" .real) _ _ (Json.echoes_real o.providerFee) <|
        .given (.required "payment_method" (Coded.shape PaymentMethod)) _ _
          (Rereads.echoes o.paymentMethod) <|
        fills_optionalTextField "ledger_ref" o.ledgerRef <|
        fills_optionalTextField "notes" o.notes <|
        .given (.required "status_history" (Coded.shape (List HistoryEntry))) _ _
          (Rereads.echoes o.history) <|
        .given (.required "created_at" .signed64) _ _ (Timestamp.echoes o.createdAt) <|
        .given (.required "updated_at" .signed64) _ _ (Timestamp.echoes o.updatedAt) .done)
      (by decide)
    rw [hhistory] at h
    refine Eq.mp (congrArg₂ (Echoes _) ?_ ?_) h
    · simp only [Coded.encode, List.append_assoc, List.cons_append, List.nil_append]
      rfl
    · cases Rereads.reread? o.pickup <;> cases Rereads.reread? o.destination <;>
        cases Rereads.reread? o.items <;> cases Binary64.reread? o.totalPrice <;>
        cases Binary64.reread? o.platformFee <;> cases Binary64.reread? o.providerFee <;> rfl

/-- An order with the places, the items and the amounts of another one. -/
def Order.withFigures (o p : Order) : Order :=
  { o with
    pickup := p.pickup
    destination := p.destination
    items := p.items
    totalPrice := p.totalPrice
    platformFee := p.platformFee
    providerFee := p.providerFee }

theorem reread?_order_eq (o : Order) :
    Rereads.reread? o = (do
      return { o with
        pickup := ← Rereads.reread? o.pickup
        destination := ← Rereads.reread? o.destination
        items := ← Rereads.reread? o.items
        totalPrice := ← Binary64.reread? o.totalPrice
        platformFee := ← Binary64.reread? o.platformFee
        providerFee := ← Binary64.reread? o.providerFee }) :=
  rfl

/-- Reading looks at nothing but the places, the items and the amounts. -/
theorem reread?_withFigures (o p : Order) :
    Rereads.reread? (p.withFigures o) = (Rereads.reread? o).map p.withFigures := by
  rw [reread?_order_eq, reread?_order_eq]
  simp only [Order.withFigures]
  cases Rereads.reread? o.pickup <;> cases Rereads.reread? o.destination <;>
    cases Rereads.reread? o.items <;> cases Binary64.reread? o.totalPrice <;>
    cases Binary64.reread? o.platformFee <;> cases Binary64.reread? o.providerFee <;> rfl

/-- Reading an order again changes nothing but its places, its items and its amounts. -/
theorem reread?_order (o o' : Order) (h : Rereads.reread? o = some o') : o' = o.withFigures o' := by
  have hself : Rereads.reread? o = (Rereads.reread? o).map o.withFigures := reread?_withFigures o o
  rw [h] at hself
  exact Option.some.inj hself

theorem reread?_ledgerRef (o o' : Order) (ref : Option String) (h : Rereads.reread? o = some o') :
    Rereads.reread? { o with ledgerRef := ref } = some { o' with ledgerRef := ref } := by
  have hfigures := reread?_withFigures o { o with ledgerRef := ref }
  rw [h] at hfigures
  rw [reread?_order o o' h]
  exact hfigures

/-- Two records of an order say the same in words: nothing is different about a place but its
coordinates, and about an item, one by one, but its quantity and its price. -/
structure Order.SameWords (o o' : Order) : Prop where
  pickup : o'.pickup =
    { o.pickup with latitude := o'.pickup.latitude, longitude := o'.pickup.longitude }
  destination : o'.destination =
    { o.destination with
      latitude := o'.destination.latitude
      longitude := o'.destination.longitude }
  items : List.Forall₂ (fun item item' : OrderItem =>
    item' = { item with quantity := item'.quantity, price := item'.price }) o.items o'.items

theorem Order.SameWords.refl (o : Order) : o.SameWords o :=
  ⟨rfl, rfl, List.forall₂_same.2 fun _ _ => rfl⟩

theorem reread?_location (l l' : Location) (h : Rereads.reread? l = some l') :
    l' = { l with latitude := l'.latitude, longitude := l'.longitude } := by
  obtain ⟨latitude, -, h⟩ := Option.bind_eq_some_iff.1 h
  obtain ⟨longitude, -, h⟩ := Option.bind_eq_some_iff.1 h
  cases h
  rfl

theorem reread?_item (item item' : OrderItem) (h : Rereads.reread? item = some item') :
    item' = { item with quantity := item'.quantity, price := item'.price } := by
  obtain ⟨quantity, -, h⟩ := Option.bind_eq_some_iff.1 h
  obtain ⟨price, -, h⟩ := Option.bind_eq_some_iff.1 h
  cases h
  rfl

/-- Lists are read item by item. -/
theorem forall₂_of_reread? (items items' : List OrderItem)
    (h : Rereads.reread? items = some items') :
    List.Forall₂ (fun item item' => Rereads.reread? item = some item') items items' := by
  induction items generalizing items' with
  | nil =>
    cases h
    exact .nil
  | cons item items ih =>
    replace h : (item :: items).mapM Rereads.reread? = some items' := h
    rw [List.mapM_cons] at h
    obtain ⟨item', hitem, h⟩ := Option.bind_eq_some_iff.1 h
    obtain ⟨rest', hrest, h⟩ := Option.bind_eq_some_iff.1 h
    cases h
    exact .cons hitem (ih rest' hrest)

/-- Whatever reading makes of the figures, it leaves the words as they are. -/
theorem sameWords_of_reread? (o o' : Order) (h : Rereads.reread? o = some o') : o.SameWords o' := by
  rw [reread?_order_eq] at h
  obtain ⟨pickup, hpickup, h⟩ := Option.bind_eq_some_iff.1 h
  obtain ⟨destination, hdestination, h⟩ := Option.bind_eq_some_iff.1 h
  obtain ⟨items, hitems, h⟩ := Option.bind_eq_some_iff.1 h
  obtain ⟨totalPrice, -, h⟩ := Option.bind_eq_some_iff.1 h
  obtain ⟨platformFee, -, h⟩ := Option.bind_eq_some_iff.1 h
  obtain ⟨providerFee, -, h⟩ := Option.bind_eq_some_iff.1 h
  cases h
  exact ⟨reread?_location _ _ hpickup, reread?_location _ _ hdestination,
    (forall₂_of_reread? _ _ hitems).imp fun _ _ => reread?_item _ _⟩

/-! ## Reports and ledger entries -/

instance : Rereads PositionReport where
  reread? r := do
    return { r with
      latitude := ← Binary64.reread? r.latitude
      longitude := ← Binary64.reread? r.longitude }
  full := Coded.encode
  decode_full r := by
    show Option.bind _ _ = _
    simp [Coded.encode, Json.get?, List.lookup, Json.real?, Json.text?, Timestamp.decode?_encode]
  opens r := Json.opens_record _
  echoes r := by
    have h := Json.echoes_record _ _ _
      (.given (.required "id" .text) _ _ (Json.echoes_text r.id) <|
        .given (.required "order_id" .text) _ _ (Json.echoes_text r.orderId) <|
        .given (.required "provider_id" .text) _ _ (Json.echoes_text r.providerId) <|
        .given (.required "latitude" .real) _ _ (Json.echoes_real r.latitude) <|
        .given (.required "longitude" .real) _ _ (Json.echoes_real r.longitude) <|
        .given (.required "timestamp" .signed64) _ _ (Timestamp.echoes r.timestamp) .done)
      (by decide)
    refine Eq.mp (congrArg (Echoes _ _) ?_) h
    cases Binary64.reread? r.latitude <;> cases Binary64.reread? r.longitude <;> rfl

theorem echoes_word64 (n : UInt64) :
    Echoes Shape.word64.read (Json.int n.toNat).chars (some (.int n.toNat)) := by
  have hsize : (UInt64.size : Int) = 18446744073709551616 := rfl
  have hmin : Int64.minValue.toInt = -9223372036854775808 := rfl
  have hn := n.toNat_lt
  exact Json.echoes_whole _ _ _ (by omega) (by omega) ⟨by omega, by omega⟩

theorem echoes_word16 (n : UInt16) :
    Echoes Shape.word16.read (Json.int n.toNat).chars (some (.int n.toNat)) := by
  have hsize : (UInt16.size : Int) = 65536 := rfl
  have hmin : Int64.minValue.toInt = -9223372036854775808 := rfl
  have hsize64 : (UInt64.size : Int) = 18446744073709551616 := rfl
  have hn := n.toNat_lt
  exact Json.echoes_whole _ _ _ (by omega) (by omega) ⟨by omega, by omega⟩

instance : Rereads LedgerEntry where
  reread? := some
  full e := .record [
    ("tx_ref", .text e.txRef),
    ("prev_ref", .text e.prevRef),
    ("height", .int e.height.toNat),
    ("order_id", .text e.orderId),
    ("user_id", .text e.userId),
    ("provider_id", Json.ofOption .text e.providerId),
    ("schema", .text e.schema),
    ("schema_version", .int e.schemaVersion.toNat),
    ("payload_hash", .text e.payloadHash),
    ("recorded_at", e.recordedAt.encode)]
  decode_full e := by
    show Option.bind _ _ = _
    simp [Json.get?, List.lookup, Json.text?, Json.int?, optional?_ofOption,
      Timestamp.decode?_encode]
  opens e := Json.opens_record _
  echoes e := by
    have h := Json.echoes_record _ _ _
      (.given (.required "tx_ref" .text) _ _ (Json.echoes_text e.txRef) <|
        .given (.required "prev_ref" .text) _ _ (Json.echoes_text e.prevRef) <|
        .given (.required "height" .word64) _ _ (echoes_word64 e.height) <|
        .given (.required "order_id" .text) _ _ (Json.echoes_text e.orderId) <|
        .given (.required "user_id" .text) _ _ (Json.echoes_text e.userId) <|
        fills_optionalTextField "provider_id" e.providerId <|
        .given (.required "schema" .text) _ _ (Json.echoes_text e.schema) <|
        .given (.required "schema_version" .word16) _ _ (echoes_word16 e.schemaVersion) <|
        .given (.required "payload_hash" .text) _ _ (Json.echoes_text e.payloadHash) <|
        .given (.required "recorded_at" .signed64) _ _ (Timestamp.echoes e.recordedAt) .done)
      (by decide)
    refine Eq.mp (congrArg₂ (Echoes _) ?_ rfl) h
    simp only [Coded.encode, List.cons_append, List.nil_append]
    rfl

end OrderDispatch
