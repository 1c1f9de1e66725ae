import FsspecData.Avro.Refinement

/-! Which values a push accepts. A framed value passes exactly when it is a sequence of
messages, which may be empty and may end in a bare prefix. -/
namespace FsspecData.Avro.Wire

variable {R : Type} (wire : Wire R)

def whole (length : Nat) : Datum R → Option R
  | .complete read row => if read = length then some row else none
  | _ => none

/-- The row of a value that is exactly one datum, or one message with a known ID. -/
def single (value : List UInt8) : Option R :=
  match wire.framing with
  | .unframed => whole value.length (wire.datum value)
  | .confluent _ =>
    match value with
    | 0 :: a :: b :: c :: d :: bytes => whole bytes.length (wire.body (schemaId a b c d) bytes)
    | _ => none

/-- The datum of a value has at least one byte. -/
def HasBody (value : List UInt8) : Prop :=
  match wire.framing with
  | .unframed => value ≠ []
  | .confluent _ => 5 < value.length

/-- Framed messages with known IDs, one after another: bodies that a prefix held before or
a prefix among the bytes announces, and the prefix held after them. -/
inductive Messages : Option UInt32 → List UInt8 → List R → Option UInt32 → Prop where
  | done : Messages awaiting [] [] awaiting
  | schemaId : (wire.writer (schemaId a b c d)).isSome →
      Messages (some (schemaId a b c d)) bytes rows last →
      Messages none (0 :: a :: b :: c :: d :: bytes) rows last
  | body {id : UInt32} : bytes ≠ [] → wire.body id bytes = .complete length row →
      Messages none (bytes.drop length) rows last → Messages (some id) bytes (row :: rows) last

/-- An empty value, or a framed value of some number of messages other than one, or with
a bare prefix at its end. -/
def Glued (value : List UInt8) : Prop :=
  match wire.framing with
  | .unframed => value = []
  | .confluent _ => ∃ rows last, wire.Messages none value rows last ∧ ¬(rows.length = 1 ∧ last = none)

variable {wire}

theorem whole_eq_some {length : Nat} {datum : Datum R} {row : R} :
    whole length datum = some row ↔ datum = .complete length row := by
  cases datum with
  | complete read other =>
    simp only [whole, Datum.complete.injEq]
    split <;> simp_all
  | incomplete => simp [whole]
  | malformed error => simp [whole]

theorem writer_of_body {id : UInt32} {bytes : List UInt8} {length : Nat} {row : R}
    (h : wire.body id bytes = .complete length row) : (wire.writer id).isSome := by
  unfold body at h
  split at h
  next known => simp [known]
  next => contradiction

theorem next_of_known {a b c d : UInt8} {bytes : List UInt8} (known : (wire.writer (schemaId a b c d)).isSome) :
    wire.next none (0 :: a :: b :: c :: d :: bytes) = .schemaId (schemaId a b c d) := by
  simp [next, known]

theorem prefix_of_next {bytes : List UInt8} {id : UInt32} (h : wire.next none bytes = .schemaId id) :
    ∃ a b c d, bytes = 0 :: a :: b :: c :: d :: bytes.drop 5 ∧ id = schemaId a b c d := by
  simp only [next] at h
  split at h
  next a b c d rest =>
    split_ifs at h
    cases h
    exact ⟨a, b, c, d, by simp, rfl⟩
  all_goals contradiction

theorem next_body {id : UInt32} {bytes : List UInt8} {length : Nat} {row : R}
    (h : wire.body id bytes = .complete length row) : wire.next (some id) bytes = .row length row := by
  simp [next, h, ofDatum]

/-- A sequence of messages is read to its end, and only these are. -/
theorem readFramed_done_iff {awaiting last : Option UInt32} {bytes : List UInt8} {rows : List R} :
    wire.readFramed awaiting bytes = ⟨rows, last, .done⟩ ↔ wire.Messages awaiting bytes rows last := by
  constructor
  · intro read
    fun_induction readFramed wire awaiting bytes generalizing rows with
    | case1 awaiting =>
      cases read
      exact .done
    | case2 awaiting bytes unread length row step ih =>
      obtain ⟨id, rfl, body⟩ := wire.next_row step
      rcases rest : wire.readFramed none (bytes.drop length) with ⟨others, held, outcome⟩
      rw [rest] at read
      cases read
      exact .body unread body (ih rest)
    | case3 awaiting bytes unread id step ih =>
      obtain ⟨rfl, known, -⟩ := wire.next_schemaId step
      obtain ⟨a, b, c, d, split, rfl⟩ := prefix_of_next step
      rw [split]
      exact .schemaId known (ih read)
    | case4 awaiting bytes unread step =>
      cases read
    | case5 awaiting bytes unread error step =>
      cases read
  · intro messages
    induction messages with
    | done => simp
    | schemaId known rest ih =>
      rw [wire.readFramed_schemaId (by simp) (next_of_known known)]
      exact ih
    | body unread read rest ih =>
      rw [wire.readFramed_row unread (next_body read), ih]
      rfl

theorem Messages.unique {awaiting last last' : Option UInt32} {bytes : List UInt8} {rows rows' : List R}
    (first : wire.Messages awaiting bytes rows last) (second : wire.Messages awaiting bytes rows' last') :
    rows = rows' ∧ last = last' := by
  have same := (readFramed_done_iff.mpr first).symm.trans (readFramed_done_iff.mpr second)
  simpa using same

section Framed

variable {writers : List (UInt32 × String)} {value : List UInt8} {row : R}

theorem single_framed (framed : wire.framing = .confluent writers) :
    wire.single value = some row ↔ ∃ a b c d bytes, value = 0 :: a :: b :: c :: d :: bytes ∧
      wire.body (schemaId a b c d) bytes = .complete bytes.length row := by
  simp only [single, framed]
  constructor
  · intro h
    split at h
    next a b c d bytes => exact ⟨a, b, c, d, bytes, rfl, whole_eq_some.mp h⟩
    next => contradiction
  · rintro ⟨a, b, c, d, bytes, rfl, read⟩
    exact whole_eq_some.mpr read

/-- One message is the sequence of itself, unless its body is empty. -/
theorem messages_of_single (framed : wire.framing = .confluent writers)
    (single : wire.single value = some row) :
    if 5 < value.length then wire.Messages none value [row] none
    else ∃ id, wire.Messages none value [] (some id) := by
  obtain ⟨a, b, c, d, bytes, rfl, read⟩ := (single_framed framed).mp single
  have known := writer_of_body read
  split
  next long =>
    have unread : bytes ≠ [] := by rintro rfl; simp at long
    exact .schemaId known (.body unread read (by rw [List.drop_length]; exact .done))
  next short =>
    have empty : bytes = [] := List.length_eq_zero_iff.mp (by simp only [List.length_cons] at short; omega)
    subst empty
    exact ⟨_, .schemaId known .done⟩

theorem single_of_messages (framed : wire.framing = .confluent writers)
    (messages : wire.Messages none value [row] none) :
    wire.single value = some row ∧ 5 < value.length := by
  cases messages with
  | @schemaId a b c d bytes _ _ known rest =>
    cases rest with
    | @body _ length _ _ _ _ unread read rest =>
      have all : bytes.drop length = [] := by
        generalize bytes.drop length = left at rest
        cases rest with
        | done => rfl
        | schemaId known rest => cases rest
      have within := wire.body_within read
      have exactly : length = bytes.length := by
        rw [List.drop_eq_nil_iff] at all
        omega
      refine ⟨(single_framed framed).mpr ⟨_, _, _, _, bytes, rfl, exactly ▸ read⟩, ?_⟩
      have := List.length_pos_iff.mpr unread
      simp; omega

end Framed

@[simp] theorem result_ok_iff {outcome : Outcome} : outcome.result = .ok () ↔ outcome = .done := by
  cases outcome <;> simp [Outcome.result]

section Push

variable {held : Held R} {value : List UInt8} {row : R}

/-- A sequence of messages is accepted, with all its rows and the prefix at its end. -/
theorem push_messages {writers : List (UInt32 × String)} {rows : List R} {last : Option UInt32}
    (framed : wire.framing = .confluent writers) (messages : wire.Messages held.awaiting value rows last) :
    wire.push held value = (.ok (), ⟨held.rows ++ rows, last⟩) := by
  simp [push, wire.reading_framed (by simp [framed]), readFramed_done_iff.mpr messages]

/-- A value that is one datum or message with a body adds its row. -/
theorem push_single (idle : held.awaiting = none) (single : wire.single value = some row)
    (body : wire.HasBody value) : wire.push held value = (.ok (), ⟨held.rows ++ [row], none⟩) := by
  cases framing : wire.framing with
  | unframed =>
    simp only [Wire.single, HasBody, framing] at single body
    simp [push, reading, framing, readUnframed, body, whole_eq_some.mp single]
  | confluent writers =>
    simp only [HasBody, framing] at body
    have messages := messages_of_single framing single
    rw [if_pos body] at messages
    exact push_messages framing (by rwa [idle])

/-- Any other value that is accepted is glued. -/
theorem glued_of_push (idle : held.awaiting = none) (accepted : (wire.push held value).1 = .ok ())
    (other : ∀ row, wire.single value = some row → ¬wire.HasBody value) : wire.Glued value := by
  simp only [push, result_ok_iff, idle] at accepted
  cases framing : wire.framing with
  | unframed =>
    simp only [Wire.single, HasBody, Glued, framing, reading, readUnframed] at other accepted ⊢
    by_contra unread
    rw [if_neg unread] at accepted
    cases read : wire.datum value with
    | complete length row =>
      rw [read] at accepted
      simp only [ite_eq_left_iff, reduceCtorEq, imp_false, not_not] at accepted
      exact other row (whole_eq_some.mpr (accepted ▸ read)) unread
    | incomplete => simp [read] at accepted
    | malformed error => simp [read] at accepted
  | confluent writers =>
    simp only [Glued, framing]
    rw [wire.reading_framed (by simp [framing])] at accepted
    rcases read : wire.readFramed none value with ⟨rows, last, outcome⟩
    rw [read] at accepted
    cases accepted
    have messages := readFramed_done_iff.mp read
    refine ⟨rows, last, messages, ?_⟩
    rintro ⟨one, rfl⟩
    obtain ⟨row, rfl⟩ := List.length_eq_one_iff.mp one
    obtain ⟨single, body⟩ := single_of_messages framing messages
    exact other row single (by simpa [HasBody, framing] using body)

theorem single_of_push (idle : held.awaiting = none) (accepted : (wire.push held value).1 = .ok ())
    (apart : ¬wire.Glued value) : ∃ row, wire.single value = some row ∧ wire.HasBody value := by
  by_contra none
  exact apart (glued_of_push idle accepted fun row single body => none ⟨row, single, body⟩)

/-- A glued value is accepted, but never as the row of one datum or message. -/
theorem push_glued (idle : held.awaiting = none) (glued : wire.Glued value) :
    ∃ rows last, wire.push held value = (.ok (), ⟨held.rows ++ rows, last⟩) ∧
      ∀ row, wire.single value = some row → rows ≠ [row] := by
  cases framing : wire.framing with
  | unframed =>
    simp only [Glued, framing] at glued
    subst glued
    exact ⟨[], none, by simp [push, reading, framing, readUnframed, Outcome.result], by simp⟩
  | confluent writers =>
    simp only [Glued, framing] at glued
    obtain ⟨rows, last, messages, several⟩ := glued
    refine ⟨rows, last, push_messages framing (idle ▸ messages), ?_⟩
    rintro row single rfl
    have own := messages_of_single framing single
    split at own
    next => exact several ⟨rfl, (own.unique messages).2.symm⟩
    next =>
      obtain ⟨id, bare⟩ := own
      cases (bare.unique messages).1

/-- A value whose datum is empty is glued. -/
theorem glued_of_single (single : wire.single value = some row) (empty : ¬wire.HasBody value) :
    wire.Glued value := by
  cases framing : wire.framing with
  | unframed => simpa [HasBody, Glued, framing] using empty
  | confluent writers =>
    simp only [HasBody, Glued, framing] at empty ⊢
    have own := messages_of_single framing single
    rw [if_neg empty] at own
    obtain ⟨id, bare⟩ := own
    exact ⟨[], some id, bare, by simp⟩

end Push

end FsspecData.Avro.Wire
