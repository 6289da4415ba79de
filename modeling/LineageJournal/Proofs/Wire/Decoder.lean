import LineageJournal.Wire.Decoder

/-! Running decoders on byte lists. A decoder reads from the left, asks for every byte it
depends on and gives back the rest untouched. So a success does not depend on what follows
the bytes it used, and every proper prefix of those bytes is too short, which the decoder
reports as running out of bytes and not as wrong bytes. -/

namespace LineageJournal.Wire

theorem Demand.kind_shortage (demand : Demand) (count got : Nat) :
    (demand.shortage count got).kind = .unexpectedEof := by
  cases demand <;> rfl

namespace Decoder

variable {α β γ : Type}

theorem bind_done (decoder : Decoder α) : decoder.bind done = decoder := by
  induction decoder with
  | done => rfl
  | fail => rfl
  | take count demand next ih => exact congrArg (take count demand) (funext ih)

theorem bind_assoc (decoder : Decoder α) (second : α → Decoder β) (third : β → Decoder γ) :
    (decoder.bind second).bind third = decoder.bind fun value => (second value).bind third := by
  induction decoder with
  | done => rfl
  | fail => rfl
  | take count demand next ih => exact congrArg (take count demand) (funext ih)

instance : LawfulMonad Decoder :=
  LawfulMonad.mk' Decoder bind_done (fun _ _ => rfl) bind_assoc

theorem run_take {count : Nat} {demand : Demand} {next : List UInt8 → Decoder α}
    {bytes : List UInt8} (enough : count ≤ bytes.length) :
    (take count demand next).run bytes =
      (next (bytes.take count)).run (bytes.drop count) := by
  have full : ¬ (bytes.take count).length < count := by
    rw [List.length_take]
    omega
  rw [run, if_neg full]

theorem run_take_of_short {count : Nat} {demand : Demand} {next : List UInt8 → Decoder α}
    {bytes : List UInt8} (short : bytes.length < count) :
    (take count demand next).run bytes = .error (demand.shortage count bytes.length) := by
  have whole : bytes.take count = bytes := List.take_of_length_le (Nat.le_of_lt short)
  rw [run, whole, if_pos short]

theorem run_bind (decoder : Decoder α) (rest : α → Decoder β) (bytes : List UInt8) :
    (decoder >>= rest).run bytes =
      match decoder.run bytes with
      | .ok (value, left) => (rest value).run left
      | .error fault => .error fault := by
  change (decoder.bind rest).run bytes = _
  induction decoder generalizing bytes with
  | done => rfl
  | fail => rfl
  | take count demand next ih =>
      by_cases enough : count ≤ bytes.length
      · rw [bind, run_take enough, run_take enough, ih]
      · rw [bind, run_take_of_short (by omega), run_take_of_short (by omega)]

theorem run_bind_of_ok {decoder : Decoder α} {rest : α → Decoder β} {bytes left : List UInt8}
    {value : α} (first : decoder.run bytes = .ok (value, left)) :
    (decoder >>= rest).run bytes = (rest value).run left := by
  rw [run_bind, first]

theorem run_bind_eq_ok {decoder : Decoder α} {rest : α → Decoder β} {bytes left : List UInt8}
    {result : β} (done : (decoder >>= rest).run bytes = .ok (result, left)) :
    ∃ value middle, decoder.run bytes = .ok (value, middle) ∧
      (rest value).run middle = .ok (result, left) := by
  rw [run_bind] at done
  cases first : decoder.run bytes with
  | error fault => simp [first] at done
  | ok read => exact ⟨read.1, read.2, rfl, by simpa [first] using done⟩

theorem suffix_of_run {decoder : Decoder α} {bytes left : List UInt8} {value : α}
    (done : decoder.run bytes = .ok (value, left)) : left <:+ bytes := by
  induction decoder generalizing bytes with
  | done read =>
      cases done
      exact List.suffix_refl _
  | fail fault => cases done
  | take count demand next ih =>
      by_cases enough : count ≤ bytes.length
      · rw [run_take enough] at done
        exact (ih _ done).trans (List.drop_suffix count bytes)
      · rw [run_take_of_short (by omega)] at done
        cases done

theorem run_append {decoder : Decoder α} {bytes left : List UInt8} {value : α}
    (done : decoder.run bytes = .ok (value, left)) (more : List UInt8) :
    decoder.run (bytes ++ more) = .ok (value, left ++ more) := by
  induction decoder generalizing bytes with
  | done read =>
      cases done
      rfl
  | fail fault => cases done
  | take count demand next ih =>
      by_cases enough : count ≤ bytes.length
      · have longer : count ≤ (bytes ++ more).length := by
          rw [List.length_append]
          omega
        rw [run_take enough] at done
        rw [run_take longer, List.take_append_of_le_length enough,
          List.drop_append_of_le_length enough]
        exact ih _ done
      · rw [run_take_of_short (by omega)] at done
        cases done

theorem run_of_run_append {decoder : Decoder α} {bytes left more : List UInt8} {value : α}
    (done : decoder.run (bytes ++ more) = .ok (value, left ++ more)) :
    decoder.run bytes = .ok (value, left) := by
  induction decoder generalizing bytes with
  | done read =>
      simp only [run, Except.ok.injEq, Prod.mk.injEq, List.append_cancel_right_eq] at done ⊢
      exact done
  | fail fault => cases done
  | take count demand next ih =>
      by_cases enough : count ≤ (bytes ++ more).length
      · rw [run_take enough] at done
        have used := (suffix_of_run done).length_le
        simp only [List.length_append, List.length_drop] at used enough
        have within : count ≤ bytes.length := by omega
        rw [List.take_append_of_le_length within, List.drop_append_of_le_length within] at done
        rw [run_take within]
        exact ih _ done
      · rw [run_take_of_short (by omega)] at done
        cases done

/-- Cut anywhere before the end of what a success used, the bytes run out. -/
theorem run_take_of_run {decoder : Decoder α} {bytes left : List UInt8} {value : α}
    (done : decoder.run bytes = .ok (value, left)) {size : Nat}
    (cut : size + left.length < bytes.length) :
    ∃ fault, decoder.run (bytes.take size) = .error fault ∧ fault.kind = .unexpectedEof := by
  induction decoder generalizing bytes size with
  | done read =>
      cases done
      omega
  | fail fault => cases done
  | take count demand next ih =>
      by_cases enough : count ≤ bytes.length
      · rw [run_take enough] at done
        by_cases reached : count ≤ size
        · have kept : count ≤ (bytes.take size).length := by
            rw [List.length_take]
            omega
          rw [run_take kept, List.take_take, Nat.min_eq_left reached, List.drop_take]
          apply ih _ done
          rw [List.length_drop]
          omega
        · have short : (bytes.take size).length < count := by
            rw [List.length_take]
            omega
          exact ⟨_, run_take_of_short short, demand.kind_shortage _ _⟩
      · rw [run_take_of_short (by omega)] at done
        cases done

/-- Whenever the decoder succeeds, the number of bytes it has used and the value it gives are
as stated. -/
def Ensures (decoder : Decoder α) (post : Nat → α → Prop) : Prop :=
  ∀ ⦃bytes left : List UInt8⦄ ⦃value : α⦄, decoder.run bytes = .ok (value, left) →
    ∃ used, used + left.length = bytes.length ∧ post used value

theorem Ensures.imp {decoder : Decoder α} {post weaker : Nat → α → Prop}
    (ensures : decoder.Ensures post) (implies : ∀ used value, post used value → weaker used value) :
    decoder.Ensures weaker := by
  intro bytes left value done
  obtain ⟨used, whole, holds⟩ := ensures done
  exact ⟨used, whole, implies used value holds⟩

theorem ensures_true (decoder : Decoder α) : decoder.Ensures fun _ _ => True := by
  intro bytes left value done
  have shorter := (suffix_of_run done).length_le
  exact ⟨bytes.length - left.length, Nat.sub_add_cancel shorter, trivial⟩

theorem ensures_pure {post : Nat → α → Prop} {value : α} (holds : post 0 value) :
    (pure value : Decoder α).Ensures post := by
  intro bytes left result done
  cases done
  exact ⟨0, Nat.zero_add _, holds⟩

theorem ensures_fail {post : Nat → α → Prop} (fault : DecodeFault) :
    (fail fault : Decoder α).Ensures post := by
  intro bytes left value done
  cases done

theorem ensures_take {post : Nat → α → Prop} {count : Nat} {demand : Demand}
    {next : List UInt8 → Decoder α}
    (rest : ∀ bytes : List UInt8, bytes.length = count →
      (next bytes).Ensures fun more value => post (count + more) value) :
    (take count demand next).Ensures post := by
  intro bytes left value done
  by_cases enough : count ≤ bytes.length
  · rw [run_take enough] at done
    obtain ⟨more, whole, holds⟩ := rest _ (List.length_take_of_le enough) done
    rw [List.length_drop] at whole
    exact ⟨count + more, by omega, holds⟩
  · rw [run_take_of_short (by omega)] at done
    cases done

theorem ensures_bind {decoder : Decoder α} {next : α → Decoder β} {first : Nat → α → Prop}
    {post : Nat → β → Prop} (head : decoder.Ensures first)
    (tail : ∀ used value, first used value →
      (next value).Ensures fun more result => post (used + more) result) :
    (decoder >>= next).Ensures post := by
  intro bytes left result done
  obtain ⟨value, middle, begun, rest⟩ := run_bind_eq_ok done
  obtain ⟨used, front, holds⟩ := head begun
  obtain ⟨more, back, ends⟩ := tail used value holds rest
  exact ⟨used + more, by omega, ends⟩

theorem ensures_bind_any (decoder : Decoder α) {next : α → Decoder β} {post : β → Prop}
    (tail : ∀ value, (next value).Ensures fun _ => post) :
    (decoder >>= next).Ensures fun _ => post :=
  ensures_bind (ensures_true decoder) fun _ value _ => tail value

end Decoder

end LineageJournal.Wire
