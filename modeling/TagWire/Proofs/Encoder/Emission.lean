import TagWire.Proofs.Encoder.Simulation

/-!
# What the strict walk puts out

Parts of the strict walk by the bytes of the message that they go over and the bytes that they put
out.

- `Strict.Puts`: a part of the walk goes over some bytes and puts out others.
- `Strict.puts_words`: the tag words of a gap as the gap has them.
- `Strict.puts_times`: data as the sum of its elements.
-/

namespace TagWire

namespace Strict

variable {α β : Type}

/-- The part of the walk goes over `message`, where no difference is deferred, puts out `out` and
gives `a`. -/
def Puts (p : Strict α) (message out : Bytes) (a : α) : Prop :=
  ∀ t rest, t.deferred = none → t.rest = message ++ rest →
    ∃ t', p.run t = .ok (a, t') ∧ t'.deferred = none ∧ t'.rest = rest ∧ t'.output = t.output ++ out

namespace Puts

theorem done (a : α) : Puts (pure a) [] [] a := by
  intro t rest settled split
  exact ⟨t, rfl, settled, split, (List.append_nil t.output).symm⟩

theorem bind {p : Strict α} {q : α → Strict β} {message more out further : Bytes} {a : α} {b : β}
    (first : Puts p message out a) (second : Puts (q a) more further b) :
    Puts (p >>= q) (message ++ more) (out ++ further) b := by
  intro t rest settled split
  rw [List.append_assoc] at split
  obtain ⟨t₁, run, settled₁, rest₁, output₁⟩ := first t (more ++ rest) settled split
  obtain ⟨t₂, run', settled₂, rest₂, output₂⟩ := second t₁ rest settled₁ rest₁
  refine ⟨t₂, ?_, settled₂, rest₂, ?_⟩
  · rw [run_bind_ok run, run']
  · rw [output₂, output₁, List.append_assoc]

/-- A part of the walk, and behind it one that neither takes nor puts out anything. -/
theorem bind_silent {p : Strict α} {q : α → Strict β} {message out : Bytes} {a : α} {b : β}
    (first : Puts p message out a) (second : Puts (q a) [] [] b) :
    Puts (p >>= q) message out b := by
  have both := first.bind second
  rwa [List.append_nil, List.append_nil] at both

/-- What is put out for a message is one thing. -/
theorem out_eq {p : Strict α} {message out out' : Bytes} {a a' : α} (puts : Puts p message out a)
    (puts' : Puts p message out' a') : out = out' := by
  have place : message = message ++ [] := (List.append_nil message).symm
  obtain ⟨t, run, _, _, output⟩ := puts { rest := message } [] rfl place
  obtain ⟨t', run', _, _, output'⟩ := puts' { rest := message } [] rfl place
  rw [run] at run'
  cases run'
  exact List.append_cancel_left (output.symm.trans output')

end Puts

theorem puts_take {message : Bytes} {n : Nat} (size : message.length = n) (out : Bool) :
    Puts (take n out) message (if out then message else []) message := by
  intro t rest settled split
  have enough : n ≤ t.rest.length := by
    rw [split, List.length_append]
    omega
  refine ⟨{ t with rest := rest, output := t.output ++ if out then message else [] }, ?_, settled,
    rfl, rfl⟩
  change (if n ≤ t.rest.length then _ else _) = _
  rw [if_pos enough, split, List.take_left' size, List.drop_left' size]

theorem puts_remember (bytes : Bytes) : Puts (remember bytes) [] [] () :=
  fun t _ settled split =>
    ⟨{ t with lastByte := bytes.getLast?.getD t.lastByte }, rfl, settled, split,
      (List.append_nil t.output).symm⟩

theorem puts_emit (bytes : Bytes) : Puts (emit bytes) [] bytes () :=
  fun t _ settled split => ⟨{ t with output := t.output ++ bytes }, rfl, settled, split, rfl⟩

theorem puts_pass {message : Bytes} {n : Nat} (size : message.length = n) (out : Bool) :
    Puts (pass n out) message (if out then message else []) () :=
  (puts_take size out).bind_silent (puts_remember message)

theorem puts_takeWord (w : Word) (out : Bool) :
    Puts (takeWord out) w.toBytes (if out then w.toBytes else []) w := by
  have same : Puts (pure (Word.ofBytes w.toBytes)) [] [] w := by
    rw [Word.ofBytes_toBytes]
    exact .done w
  exact (puts_take w.length_toBytes out).bind_silent same

theorem run_settle (origin : String) (length : Word) (t : Tape) :
    (settle origin length).run t =
      match t.deferred with
      | none => .ok ((), t)
      | some d =>
        if length ≠ 0 then .error (.tagMismatch d.expected d.received origin) else .ok
          ((), { t with deferred := none }) := by
  obtain ⟨rest, lastByte, deferred, output⟩ := t
  cases deferred with
  | none => rfl
  | some d =>
    by_cases differs : length ≠ 0
    · dsimp only
      rw [if_pos differs]
      exact congrArg (fun p : Strict Unit => p.run _) (if_pos differs)
    · dsimp only
      rw [if_neg differs]
      exact congrArg (fun p : Strict Unit => p.run _) (if_neg differs)

theorem puts_settle (origin : String) (length : Word) : Puts (settle origin length) [] [] () := by
  intro t rest settled split
  refine ⟨t, ?_, settled, split, (List.append_nil t.output).symm⟩
  rw [run_settle, settled]

theorem puts_checkLength (origin : String) (w : Word) :
    Puts (checkLength origin w) w.toBytes [] () := by
  refine (puts_takeWord w false).bind_silent ((puts_settle origin w).bind_silent ?_)
  rw [if_neg (not_not_intro rfl)]
  exact .done ()

theorem puts_checkTag (origin : String) (w : Word) : Puts (checkTag origin w) w.toBytes [] () := by
  apply (puts_takeWord w false).bind_silent
  rw [if_pos rfl]
  exact .done ()

/-- The tag words of a gap as the gap has them. -/
theorem puts_words (origin : String) (words : List Word) :
    Puts (checkWords origin words) (words.flatMap Word.toBytes) [] () := by
  induction words using checkWords.induct with
  | case1 => exact .done ()
  | case2 tag =>
    rw [List.flatMap_singleton]
    exact puts_checkTag origin tag
  | case3 tag next rest behind following =>
    apply (puts_checkTag origin tag).bind
    split
    · exact (puts_checkLength origin next).bind behind
    · exact following

/-- The number in front of data as the data has it. -/
theorem puts_takeLength (origin : String) (g : Gap) {w : Word} {n : Nat}
    (length : w.length? = some n) :
    Puts (takeLength origin g) w.toBytes w.toBytes n := by
  refine (puts_takeWord w true).bind_silent ((puts_settle origin w).bind_silent ?_)
  rw [length]
  exact .done n

theorem puts_passText (origin : String) (g : Gap) {w : Word} {text : Bytes}
    (length : w.length? = some text.length) :
    Puts (passText origin g) (w.toBytes ++ text) (w.toBytes ++ text) () :=
  (puts_takeLength origin g length).bind (puts_pass rfl true)

theorem puts_passNarrow {wide : Bytes} (size : wide.length = 8) :
    Puts passNarrow wide (Bytes.ofNat 4 (Binary.narrow (UInt64.ofNat (Bytes.toNat wide))).toNat)
      () := by
  have narrowed :=
    (puts_take size false).bind (q := fun wide =>
      emit (Bytes.ofNat 4 (Binary.narrow (UInt64.ofNat (Bytes.toNat wide))).toNat))
    (puts_emit _)
  rwa [List.append_nil] at narrowed

/-- The fill of a padded integer goes by its last byte. -/
theorem puts_passPadded {kept : Bytes} {size : Nat} (size_eq : kept.length = size)
    (some_kept : kept ≠ []) (wire : Nat) (signed : Bool) :
    Puts (passPadded size wire signed) kept
      (kept ++ List.replicate (wire - size) (padByte signed kept)) () := by
  intro t rest settled split
  obtain ⟨t₁, taken, settled₁, rest₁, output₁⟩ := puts_take size_eq true t rest settled split
  refine ⟨{ t₁ with
    lastByte := kept.getLast?.getD t₁.lastByte
    output := t₁.output ++ List.replicate (wire - size) (padByte signed kept) }, ?_, settled₁,
      rest₁, ?_⟩
  · have same_fill : padByte signed [kept.getLast?.getD t₁.lastByte] = padByte signed kept := by
      have last_eq : kept.getLast? = some (kept.getLast some_kept) :=
        List.getLast?_eq_some_getLast some_kept
      simp [padByte, last_eq]
    have passed : (pass size true).run t =
        .ok ((), { t₁ with lastByte := kept.getLast?.getD t₁.lastByte }) := by
      rw [pass, run_bind_ok taken]
      rfl
    rw [passPadded, run_bind_ok passed]
    change (emit
      (List.replicate (wire - size) (padByte signed [kept.getLast?.getD t₁.lastByte]))).run _ = _
    rw [same_fill]
    rfl
  · dsimp only
    rw [output₁, List.append_assoc]
    rfl

/-- Elements as they are outside and in the message, one after the other. -/
theorem puts_times {part : Strict Unit} {elements : List (Bytes × Bytes)}
    (parts : ∀ e ∈ elements, Puts part e.2 e.1 ()) :
    Puts (times part elements.length) (elements.flatMap Prod.snd) (elements.flatMap Prod.fst)
      () := by
  induction elements with
  | nil => exact .done ()
  | cons e rest ih =>
    exact (parts e List.mem_cons_self).bind (ih fun e member =>
      parts e (List.mem_cons_of_mem _ member))

end Strict

/-- A message of which nothing is left behind the gaps can be put out. -/
theorem Layout.encodeOnce_of_puts {l : Layout} {message out : Bytes}
    (puts : (Strict.passGaps l l.gaps).Puts message out ()) :
    l.encodeOnce message = .ok out := by
  obtain ⟨t, run, _, ended, output⟩ :=
    puts { rest := message } [] rfl (List.append_nil message).symm
  rw [Layout.encodeOnce, run]
  dsimp only
  rw [if_pos ended, output]
  rfl

end TagWire
