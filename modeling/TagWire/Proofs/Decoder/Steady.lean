import TagWire.Proofs.Decoder.Agenda

/-!
# What leaves the properties alone

Properties are only changed by what is hidden in the tagged message. Data that the message has,
and the bytes of hidden data before they are saved, are gone over without a change.

- `Pass.Steady`: a part of a pass that leaves the properties as they are.
- `Pass.gaps_failed`: the properties that are left where a pass fails.
- `Task.Left`, `Task.leaves_step`: what is left of a task when some of its bytes have been sent.
-/

namespace TagWire

namespace Pass

variable {α β : Type}

/-- The part of the pass leaves the properties as they are. -/
def Steady (p : Pass α) : Prop := ∀ l : Ledger, (p.run l).2.properties = l.properties

theorem onward_steady : Onward fun l l' => l'.properties = l.properties where
  refl _ := rfl
  trans first further := further.trans first
  delivers _ _ := rfl
  takes _ _ := rfl

theorem steady_hidden (p : Payload) : Steady (hidden p) := onward_steady.hidden p

/-- Data of the tagged message is gone over without a change. -/
theorem steady_gap {g : Gap} (visible : g.isHidden = false) : Steady (gap g) := by
  obtain ⟨words, content⟩ := g
  cases content with
  | nothing => exact onward_steady.deliver _
  | derivation => cases visible
  | data p =>
    refine onward_steady.gap (fun _ name data use => ?_) nofun
    cases data
    change p.use.isHidden = false at visible
    rw [use] at visible
    cases visible

theorem bind_failed {p : Pass α} {q : α → Pass β} {e : Error} {l l'' : Ledger}
    (failed : (p >>= q).run l = (.error e, l'')) :
    p.run l = (.error e, l'') ∨
      ∃ a l', p.run l = (.ok a, l') ∧ (q a).run l' = (.error e, l'') := by
  generalize first : p.run l = answer
  obtain ⟨e' | a, l'⟩ := answer
  · rw [run_bind_error first] at failed
    cases failed
    exact .inl rfl
  · rw [run_bind_ok first] at failed
    exact .inr ⟨a, l', rfl, failed⟩

/-- Hidden data that cannot be read is not saved. -/
theorem hide_failed {p : Payload} {e : Error} {l l' : Ledger}
    (failed : (hide p).run l = (.error e, l')) : l'.properties = l.properties := by
  rcases bind_failed failed with unread | ⟨bytes, l₁, _, put⟩
  · have same := steady_hidden p l
    rwa [unread] at same
  · cases use : p.use <;> rw [use] at put <;> cases put

theorem derive_failed {derivation : Derivation} {e : Error} {l l' : Ledger}
    (failed : (derive derivation).run l = (.error e, l')) : l' = l := by
  rw [run_derive] at failed
  split at failed <;> cases failed
  rfl

/-- A gap that cannot be gone over leaves the properties as they are. -/
theorem gap_failed {g : Gap} {e : Error} {l l' : Ledger}
    (failed : (gap g).run l = (.error e, l')) : l'.properties = l.properties := by
  cases hidden : g.isHidden with
  | false =>
    have same := steady_gap hidden l
    rwa [failed] at same
  | true =>
    obtain ⟨words, content⟩ := g
    cases content with
    | nothing => cases hidden
    | derivation derivation origin =>
      rcases bind_failed failed with refused | ⟨_, _, _, sent⟩
      · rw [derive_failed refused]
      · cases sent
    | data p =>
      obtain sent | ⟨_, l₁, sent, unread⟩ := bind_failed failed
      · cases sent
      · rw [payload_hidden hidden] at unread
        cases sent
        have same := hide_failed unread
        exact same

/-- Gaps that cannot all be gone over leave the properties of those in front of the first that
fails. -/
theorem gaps_failed {gs : List Gap} {e : Error} {l l' : Ledger}
    (failed : (gaps gs).run l = (.error e, l')) :
    ∃ past todo l₁, gs = past ++ todo ∧ (gaps past).run l = (.ok (), l₁) ∧
      l'.properties = l₁.properties := by
  induction gs generalizing l with
  | nil => cases failed
  | cons g rest ih =>
    obtain first | ⟨_, l₁, first, further⟩ := bind_failed failed
    · exact ⟨[], g :: rest, l, rfl, rfl, gap_failed first⟩
    · obtain ⟨past, todo, l₂, rfl, passed, same⟩ := ih further
      refine ⟨g :: past, todo, l₂, rfl, ?_, same⟩
      rw [gaps, run_bind_ok first, passed]

end Pass

namespace Task

theorem sends_elements (p : Payload) (n : Nat) : (p.elements n).sends = true := by
  unfold Payload.elements
  split <;> rfl

theorem sends_task {p : Payload} (visible : p.use.isHidden = false) : p.task.sends = true := by
  unfold Payload.task
  cases use : p.use with
  | skipped | saved =>
    rw [use] at visible
    cases visible
  | loaded => rfl
  | exchanged =>
    cases p.count with
    | fixed n => exact sends_elements p n
    | fromWire => rfl

theorem task_hidden {p : Payload} (hidden : p.use.isHidden = true) : p.task = .hide p := by
  unfold Payload.task
  cases use : p.use with
  | skipped | saved => rfl
  | exchanged | loaded =>
    rw [use] at hidden
    cases hidden

theorem steady_passAll {tasks : List Task} (send : ∀ t ∈ tasks, t.sends = true) :
    Pass.Steady (passAll tasks) :=
  leads_passAll Pass.onward_steady fun t member => leads_pass Pass.onward_steady (send t member)

variable {σ α : Type}

/-- What may be left of a task when some of its bytes have been sent. -/
inductive Left : Task → Task → Prop
  | elements (p : Payload) (n : Nat) : Left (counted p) (p.elements n)
  | forward (origin : String) (n m : Nat) : Left (forward origin n) (forward origin m)
  | convert (p : Payload) (n : Nat) : Left (convert p (n + 1)) (convert p n)
  | text (origin : String) (n m : Nat) : Left (texts origin n) (forward origin m)
  | texts (origin : String) (n : Nat) : Left (texts origin (n + 1)) (texts origin n)

theorem Left.sends {t t' : Task} (left : t.Left t') : t'.sends = true := by
  cases left with
  | elements p n => exact sends_elements p n
  | _ => rfl

/-- A property of all tasks that are left when bytes are sent. -/
def Leaves (P : Task → Prop) (m : Reading (Channel σ) Outcome) : Prop :=
  ∀ c bytes tasks, (m.run c).1 = .ok (.sent bytes tasks) → ∀ t ∈ tasks, P t

namespace Leaves

variable {P : Task → Prop}

theorem silent : Leaves P (pure .silent : Reading (Channel σ) Outcome) := fun _ _ _ => nofun

theorem failed (e : Error) : Leaves P (throw e : Reading (Channel σ) Outcome) := fun _ _ _ => nofun

theorem sent {bytes : Bytes} {tasks : List Task} (each : ∀ t ∈ tasks, P t) :
    Leaves P (pure (.sent bytes tasks) : Reading (Channel σ) Outcome) := by
  rintro _ _ _ ⟨⟩
  exact each

theorem bind {m : Reading (Channel σ) α} {f : α → Reading (Channel σ) Outcome}
    (rest : ∀ a, Leaves P (f a)) : Leaves P (m >>= f) := by
  intro c bytes tasks sent
  generalize h : m.run c = answer at sent
  obtain ⟨e | a, c'⟩ := answer
  · rw [Reading.run_bind_error h] at sent
    cases sent
  · rw [Reading.run_bind_ok h] at sent
    exact rest a c' bytes tasks sent

end Leaves

/-- What is left of a task when some of its bytes have been sent. -/
theorem leaves_step [ByteStream σ] (want : Nat) (t : Task) :
    Leaves t.Left (t.step want : Reading (Channel σ) Outcome) := by
  have nothing : ∀ t' ∈ ([] : List Task), t.Left t' := List.forall_mem_nil _
  cases t with
  | derive | hide => exact .bind fun _ => .silent
  | close => exact .silent
  | send bytes =>
    change Leaves _ (pure (if bytes = [] then .silent else .sent bytes []))
    split
    · exact .silent
    · exact .sent nothing
  | load => exact .bind fun bytes => .sent nothing
  | counted p => exact .bind fun n => .sent (List.forall_mem_singleton.mpr (.elements p n))
  | forward origin n =>
    have rest (bytes : Bytes) :
        ∀ t' ∈ [forward origin (n - bytes.length)], (forward origin n).Left t' :=
      List.forall_mem_singleton.mpr (.forward origin n _)
    change Leaves _ (if n = 0 then pure .silent else _)
    split
    · exact .silent
    · refine .bind fun bytes => ?_
      split
      · exact .bind fun _ => .sent (rest bytes)
      · exact .sent (rest bytes)
  | convert p n =>
    cases n with
    | zero => exact .silent
    | succ n => exact .bind fun bytes => .sent (List.forall_mem_singleton.mpr (.convert p n))
  | texts origin n =>
    cases n with
    | zero => exact .silent
    | succ n =>
      refine .bind fun length => .sent ?_
      exact List.forall_mem_cons.mpr
        ⟨.text origin (n + 1) length, List.forall_mem_singleton.mpr (.texts origin n)⟩

end Task

end TagWire
