import TagWire.Proofs.Decoder.Histories
import TagWire.Proofs.Decoder.Steady
import TagWire.Proofs.Layout.Unseen

/-!
# Properties on the way

Whatever is read from a decoder, its properties are those that the gaps leave which it has gone
over. A gap that is hidden in the tagged message is gone over as a whole or not at all, and no
other gap changes the properties.

- `Decoder.passed`: the number of gaps that a decoder has gone over.
- `Reached`, `Stopped`: how far a decoder has come in a pass over its gaps.
- `Task.advance_reached`: tasks that are taken until one sends bytes.
- `Decoder.Within.gone`: the properties of a decoder in its pass.
-/

namespace TagWire

variable {σ : Type} [ByteStream σ] {supply : Supply σ}

namespace Task

theorem advance_silent {want : Nat} {t : Task} {rest : List Task} {c c' : Channel σ}
    (done : (t.step want).run c = (.ok .silent, c')) :
    advance want (t :: rest) c = advance want rest c' := by
  rw [advance, done]

theorem advance_error {want : Nat} {t : Task} {rest : List Task} {c c' : Channel σ} {e : Error}
    (failed : (t.step want).run c = (.error e, c')) :
    advance want (t :: rest) c = (.error e, t :: rest, c') := by
  rw [advance, failed]

variable {tasks : List Task}

/-- How tasks end that send bytes, with others behind them. -/
inductive Through (supply : Supply σ) (rest : List Task) (want : Nat) :
    Except Error Bytes × List Task × Channel σ → Except Error Unit × Ledger → Prop
  | ended {c l} (tracks : Tracks supply c l) :
      Through supply rest want (advance want rest c) (.ok (), l)
  | sent {bytes tasks c l} (sound : ∀ t ∈ tasks, t.Sound) (send : ∀ t ∈ tasks, t.sends = true)
      (tracks : Tracks supply c l) :
      Through supply rest want (.ok bytes, tasks ++ rest, c) ((passAll tasks).run l)
  | failed {e tasks c l} (send : ∀ t ∈ tasks, t.sends = true) (parted : Parted supply c l) :
      Through supply rest want (.error e, tasks ++ rest, c) (.error e, l)

theorem through (sound : ∀ t ∈ tasks, t.Sound) (send : ∀ t ∈ tasks, t.sends = true)
    {c : Channel σ} {l : Ledger} (tracks : Tracks supply c l) {want : Nat} (positive : 0 < want)
    (rest : List Task) :
    Through supply rest want (advance want (tasks ++ rest) c) ((passAll tasks).run l) := by
  induction tasks generalizing c l with
  | nil => exact .ended tracks
  | cons t others ih =>
    obtain ⟨t_sound, others_sound⟩ := List.forall_mem_cons.mp sound
    obtain ⟨t_sends, others_send⟩ := List.forall_mem_cons.mp send
    have steps := Task.steps tracks t t_sound positive
    have leaves := leaves_step want t c
    rw [List.cons_append, advance]
    generalize (t.step want).run c = answer at steps leaves ⊢
    generalize hp : t.pass.run l = answer' at steps
    cases steps with
    | silent _ tracks' =>
      rw [passAll, Pass.run_bind_ok hp]
      exact ih others_sound others_send tracks'
    | error _ parted =>
      rw [passAll, Pass.run_bind_error hp]
      exact .failed send parted
    | @sent bytes left c' l' _ _ tracks' left_sound =>
      have left_send := fun t member => (leaves bytes left rfl t member).sends
      rw [passAll_resumed hp]
      dsimp only
      rw [← List.append_assoc]
      exact .sent (List.forall_mem_append.mpr ⟨left_sound, others_sound⟩)
        (List.forall_mem_append.mpr ⟨left_send, others_send⟩) tracks'

theorem count_close_of_send (send : ∀ t ∈ tasks, t.sends = true) : tasks.count .close = 0 := by
  rw [List.count_eq_zero]
  intro member
  cases send _ member

theorem count_close_gap (g : Gap) : g.tasks.count .close = 1 := by
  obtain ⟨words, content⟩ := g
  cases content with
  | nothing | derivation => rfl
  | data p =>
    have other : p.task ≠ .close := by
      cases hidden : p.use.isHidden with
      | true =>
        rw [task_hidden hidden]
        nofun
      | false =>
        intro closes
        have sends := sends_task hidden
        rw [closes] at sends
        cases sends
    simp [Gap.tasks, other]

theorem count_close (todo : List Gap) : (todo.flatMap Gap.tasks).count .close = todo.length := by
  induction todo with
  | nil => rfl
  | cons g rest ih =>
    rw [List.flatMap_cons, List.count_append, count_close_gap, ih, List.length_cons, Nat.add_comm]

/-- A gap of the tagged message sends bytes, and closes. -/
theorem tasks_visible {g : Gap} (visible : g.isHidden = false) :
    ∃ tasks, g.tasks = tasks ++ [.close] ∧ (∀ t ∈ tasks, t.sends = true) ∧
      passAll tasks = Pass.gap g := by
  have closed {tasks : List Task} (all : g.tasks = tasks ++ [.close]) :
      passAll tasks = Pass.gap g := by
    rw [← passAll_gap, all, passAll_append]
    exact (Pass.bind_unit _).symm
  obtain ⟨words, content⟩ := g
  cases content with
  | nothing => exact ⟨_, rfl, List.forall_mem_singleton.mpr rfl, closed rfl⟩
  | derivation => cases visible
  | data p =>
    have sends := sends_task (p := p) visible
    exact ⟨_, rfl, List.forall_mem_cons.mpr ⟨rfl, List.forall_mem_singleton.mpr sends⟩, closed rfl⟩

/-- A gap that is hidden in the tagged message is gone over at once, or not at all. -/
theorem advance_hidden {g : Gap} (hidden : g.isHidden = true) (bare : g.words = [])
    {c : Channel σ} {l : Ledger} (tracks : Tracks supply c l) (want : Nat) (rest : List Task) :
    (∃ c' l', (Pass.gap g).run l = (.ok (), l') ∧ Tracks supply c' l' ∧
      advance want (g.tasks ++ rest) c = advance want rest c') ∨
    ∃ e left c', advance want (g.tasks ++ rest) c = (.error e, left ++ rest, c') ∧
      left.count .close = 1 ∧ c'.properties = l.properties := by
  obtain ⟨words, content⟩ := g
  cases bare
  cases content with
  | nothing => cases hidden
  | derivation derivation origin =>
    have ends := Follows.derive derivation c l tracks
    generalize read : (deriveProperties derivation).run c = answer,
      gone : (Pass.derive derivation).run l = answer' at ends
    change
      (∃ c' l', _ ∧ _ ∧ advance want (.derive derivation :: .send [] :: .close :: rest) c = _) ∨
        ∃ e left c', advance want (.derive derivation :: .send [] :: .close :: rest) c = _ ∧ _
    cases ends with
    | @ok _ c' l' silent tracks' =>
      have done : ((derive derivation).step want).run c = (.ok .silent, c') :=
        Reading.run_bind_ok read
      refine .inl ⟨c', { l' with delivered := l'.delivered ++ [] }, Pass.run_bind_ok gone,
        ⟨tracks'.holds, tracks'.failure, tracks'.properties⟩, ?_⟩
      rw [advance_silent done, advance_silent rfl, advance_silent rfl]
    | @error e c' l' silent parted =>
      have failed : ((derive derivation).step want).run c = (.error e, c') :=
        Reading.run_bind_error read
      refine .inr ⟨e, [.derive derivation, .send [], .close], c', advance_error failed, rfl, ?_⟩
      rw [parted.properties, Pass.derive_failed gone]
  | data p =>
    have task : p.task = .hide p := task_hidden hidden
    have hides : Pass.gap ⟨[], .data p⟩ = (do Pass.deliver []; Pass.hide p) :=
      congrArg (fun hide => do Pass.deliver []; hide) (Pass.payload_hidden hidden)
    have ends := Follows.hide p c { l with delivered := l.delivered ++ [] }
      ⟨tracks.holds, tracks.failure, tracks.properties⟩
    generalize read : (readHidden p).run c = answer,
      gone : (Pass.hide p).run { l with delivered := l.delivered ++ [] } = answer' at ends
    change (∃ c' l', _ ∧ _ ∧ advance want (.send [] :: p.task :: .close :: rest) c = _) ∨
      ∃ e left c', advance want (.send [] :: p.task :: .close :: rest) c = _ ∧ _
    rw [task, hides, advance_silent rfl]
    cases ends with
    | @ok _ c' l' silent tracks' =>
      have done : ((hide p).step want).run c = (.ok .silent, c') := Reading.run_bind_ok read
      refine .inl ⟨c', l', (Pass.run_bind_ok (Pass.run_deliver [] l)).trans gone, tracks', ?_⟩
      rw [advance_silent done, advance_silent rfl]
    | @error e c' l' silent parted =>
      have failed : ((hide p).step want).run c = (.error e, c') := Reading.run_bind_error read
      refine .inr ⟨e, [.hide p, .close], c', advance_error failed, rfl, ?_⟩
      have same := Pass.hide_failed gone
      exact parted.properties.trans same

end Task

/-- How far a decoder has come in a pass over the gaps of its layout: it stands between two gaps, or
within one of the tagged message. -/
inductive Reached (supply : Supply σ) (layout : Layout) (start : Ledger) :
    List Task → Channel σ → Prop
  | between {past todo c l} (split : layout.gaps = past ++ todo)
      (passed : (Pass.gaps past).run start = (.ok (), l)) (tracks : Tracks supply c l) :
      Reached supply layout start (todo.flatMap Gap.tasks) c
  | within {past g todo tasks c l l'} (split : layout.gaps = past ++ g :: todo)
      (passed : (Pass.gaps past).run start = (.ok (), l)) (sound : ∀ t ∈ tasks, t.Sound)
      (send : ∀ t ∈ tasks, t.sends = true) (tracks : Tracks supply c l')
      (rest : (Task.passAll tasks).run l' = (Pass.gap g).run l)
      (same : l'.properties = l.properties) :
      Reached supply layout start (tasks ++ .close :: todo.flatMap Gap.tasks) c

/-- What a decoder has left that could not go on: the properties of at least the gaps that its
agenda does not hold any more. -/
def Stopped (layout : Layout) (start : Ledger) (agenda : List Task) (properties : Properties) :
    Prop :=
  ∃ past todo l, layout.gaps = past ++ todo ∧ todo.length ≤ agenda.count .close ∧
    (Pass.gaps past).run start = (.ok (), l) ∧ properties = l.properties

/-- How tasks end that are taken in a pass over gaps until one sends bytes. -/
inductive Advanced (supply : Supply σ) (layout : Layout) (start : Ledger) :
    Except Error Bytes × List Task × Channel σ → Prop
  | on {bytes agenda c} (reached : Reached supply layout start agenda c) :
      Advanced supply layout start (.ok bytes, agenda, c)
  | stopped {e agenda c} (stopped : Stopped layout start agenda c.properties) :
      Advanced supply layout start (.error e, agenda, c)

variable {layout : Layout} {start : Ledger}

/-- Gaps that have been gone over, with one more. -/
theorem Pass.gaps_snoc {past : List Gap} {g : Gap} {l l' : Ledger}
    (passed : (gaps past).run start = (.ok (), l)) (one : (gap g).run l = (.ok (), l')) :
    (gaps (past ++ [g])).run start = (.ok (), l') := by
  rw [gaps_append, run_bind_ok passed, gaps_single, one]

namespace Task

variable {want : Nat}

/-- Within a gap of the tagged message, given how the gaps behind it are gone over. -/
theorem advance_within (positive : 0 < want) {past todo : List Gap} {g : Gap} {tasks : List Task}
    {c : Channel σ} {l l' : Ledger} (split : layout.gaps = past ++ g :: todo)
    (passed : (Pass.gaps past).run start = (.ok (), l)) (sound : ∀ t ∈ tasks, t.Sound)
    (send : ∀ t ∈ tasks, t.sends = true) (tracks : Tracks supply c l')
    (rest : (passAll tasks).run l' = (Pass.gap g).run l) (same : l'.properties = l.properties)
    (further : ∀ c l, (Pass.gaps (past ++ [g])).run start = (.ok (), l) → Tracks supply c l →
      Advanced supply layout start (advance want (todo.flatMap Gap.tasks) c)) :
    Advanced supply layout start (advance want (tasks ++ .close :: todo.flatMap Gap.tasks) c) := by
  have through := through sound send tracks positive (.close :: todo.flatMap Gap.tasks)
  have steady := steady_passAll send l'
  rw [rest] at through steady
  generalize advance want (tasks ++ .close :: todo.flatMap Gap.tasks) c = answer at through ⊢
  generalize gone : (Pass.gap g).run l = answer' at through steady
  cases through with
  | @ended c' l'' tracks' =>
    rw [advance_silent rfl]
    exact further c' l'' (Pass.gaps_snoc passed gone) tracks'
  | @sent bytes left c' l'' left_sound left_send tracks' =>
    have unchanged := steady_passAll left_send l''
    exact .on (.within split passed left_sound left_send tracks' gone.symm
      (unchanged.symm.trans (steady.trans same)))
  | @failed e left c' l'' left_send parted =>
    refine .stopped ⟨past, g :: todo, l, split, ?_, passed, ?_⟩
    · rw [List.count_append, List.count_cons_self, count_close, List.length_cons]
      omega
    · exact parted.properties.trans (steady.trans same)

/-- Between two gaps, a decoder goes on with what is left. -/
theorem advance_between (sound : layout.Sound) (unseen : ∀ g ∈ layout.gaps, g.Unseen)
    (positive : 0 < want) {past todo : List Gap} {c : Channel σ} {l : Ledger}
    (split : layout.gaps = past ++ todo) (passed : (Pass.gaps past).run start = (.ok (), l))
    (tracks : Tracks supply c l) :
    Advanced supply layout start (advance want (todo.flatMap Gap.tasks) c) := by
  induction todo generalizing past c l with
  | nil => exact .on (.between split passed tracks)
  | cons g todo ih =>
    have further (c : Channel σ) (l : Ledger)
        (passed : (Pass.gaps (past ++ [g])).run start = (.ok (), l)) (tracks : Tracks supply c l) :
        Advanced supply layout start (advance want (todo.flatMap Gap.tasks) c) :=
      ih (split.trans (List.append_cons past g todo)) passed tracks
    have member : g ∈ layout.gaps := by
      rw [split]
      exact List.mem_append_right past List.mem_cons_self
    rw [List.flatMap_cons]
    cases hidden : g.isHidden with
    | true =>
      have bare := unseen g member hidden
      rcases advance_hidden hidden bare tracks want (todo.flatMap Gap.tasks) with
        ⟨c', l', gone, tracks', advanced⟩ | ⟨e, left, c', advanced, open_gap, same⟩
      · rw [advanced]
        exact further c' l' (Pass.gaps_snoc passed gone) tracks'
      · rw [advanced]
        refine .stopped ⟨past, g :: todo, l, split, ?_, passed, same⟩
        rw [List.count_append, open_gap, count_close, List.length_cons]
        omega
    | false =>
      obtain ⟨tasks, closed, send, whole⟩ := tasks_visible hidden
      have tasks_sound : ∀ t ∈ tasks, t.Sound := by
        intro t inside
        refine sound_tasks sound t (List.mem_flatMap.mpr ⟨g, member, ?_⟩)
        rw [closed]
        exact List.mem_append_left _ inside
      rw [closed, List.append_assoc]
      exact advance_within positive split passed tasks_sound send tracks (by rw [whole]) rfl further

/-- A decoder that takes tasks until one sends bytes comes further in its pass, or stops. -/
theorem advance_reached (sound : layout.Sound) (unseen : ∀ g ∈ layout.gaps, g.Unseen)
    (positive : 0 < want) {agenda : List Task} {c : Channel σ}
    (reached : Reached supply layout start agenda c) :
    Advanced supply layout start (advance want agenda c) := by
  cases reached with
  | between split passed tracks => exact advance_between sound unseen positive split passed tracks
  | @within past g todo _ _ _ _ split passed tasks_sound send tracks rest same =>
    exact advance_within positive split passed tasks_sound send tracks rest same
      fun c l passed tracks => advance_between sound unseen positive
        (split.trans (List.append_cons past g todo)) passed tracks

end Task

/-- What a decoder has left to do is the rest of the pass. -/
theorem Reached.todo {agenda : List Task} {c : Channel σ}
    (reached : Reached supply layout start agenda c) :
    ∃ past todo l l', layout.gaps = past ++ todo ∧ todo.length = agenda.count .close ∧
      (Pass.gaps past).run start = (.ok (), l) ∧ c.properties = l.properties ∧
      Tracks supply c l' ∧ (Task.passAll agenda).run l' = (Pass.gaps todo).run l := by
  cases reached with
  | @between past todo _ l split passed tracks =>
    refine ⟨past, todo, l, l, split, (Task.count_close todo).symm, passed, tracks.properties,
      tracks, ?_⟩
    rw [Task.passAll_tasks]
  | @within past g todo tasks _ l l' split passed _ send tracks rest same =>
    refine ⟨past, g :: todo, l, l', split, ?_, passed, tracks.properties.trans same, tracks, ?_⟩
    · rw [List.count_append, Task.count_close_of_send send, List.count_cons_self, Task.count_close,
        List.length_cons, Nat.zero_add]
    · have further (u : Unit) :
          Task.passAll (.close :: todo.flatMap Gap.tasks) = Pass.gaps todo := by
        rw [← Task.passAll_tasks]
        rfl
      rw [Task.passAll_append, Pass.gaps, funext further]
      exact Pass.run_bind_congr rest fun _ => Pass.gaps todo

namespace Decoder

/-- The number of gaps that a decoder has gone over. -/
def passed (d : Decoder σ) : Nat := d.layout.gaps.length - d.agenda.count .close

/-- A decoder in a pass over the gaps of a layout. -/
structure Within (supply : Supply σ) (layout : Layout) (start : Ledger) (d : Decoder σ) : Prop where
  same : d.layout = layout
  alive : d.failed = none → Reached supply layout start d.agenda d.channel
  stopped : d.failed ≠ none → Stopped layout start d.agenda d.properties

/-- A request takes a decoder further in its pass. -/
theorem lasts_within (sound : layout.Sound) (unseen : ∀ g ∈ layout.gaps, g.Unseen) :
    Lasts (Within supply layout start) := by
  intro d within n
  have left := requested d n
  generalize (d.read n).2 = d' at left
  cases left with
  | idle => exact within
  | delivered alive =>
    exact ⟨within.same, fun _ => within.alive alive, fun stopped => absurd rfl stopped⟩
  | stopped alive positive advanced =>
    have reached := Task.advance_reached sound unseen positive (within.alive alive)
    rw [advanced] at reached
    cases reached with
    | stopped stopped =>
      exact ⟨within.same, fun alive => absurd alive (Option.some_ne_none _), fun _ => stopped⟩
  | further alive positive advanced =>
    have reached := Task.advance_reached sound unseen positive (within.alive alive)
    rw [advanced] at reached
    cases reached with
    | on reached => exact ⟨within.same, fun _ => reached, fun stopped => absurd rfl stopped⟩

/-- Working off what is left takes a decoder to the end of its pass, or to the first gap that cannot
be gone over. -/
theorem finish_within {d : Decoder σ} (within : d.Within supply layout start) :
    d.finish.2.Within supply layout start := by
  rw [finish]
  cases failed : d.failed with
  | some e => exact within
  | none =>
    obtain ⟨past, todo, l, l', split, count, passed, -, tracks, rest⟩ := (within.alive failed).todo
    have hands := Task.sends_runAll d.agenda d.channel l' tracks
    rw [rest] at hands
    dsimp only
    generalize (Task.runAll d.agenda).run d.channel = answer at hands ⊢
    generalize gone : (Pass.gaps todo).run l = answer' at hands
    cases hands with
    | @ok bytes c final _ tracks' =>
      have whole : (Pass.gaps layout.gaps).run start = (.ok (), final) := by
        rw [split, Pass.gaps_append, Pass.run_bind_ok passed, gone]
      have reached : Reached supply layout start [] c :=
        .between (List.append_nil layout.gaps).symm whole tracks'
      dsimp only
      split <;> exact ⟨within.same, fun _ => reached, fun stopped => absurd rfl stopped⟩
    | @error e c final parted =>
      obtain ⟨past', todo', l'', rfl, passed', same⟩ := Pass.gaps_failed gone
      refine ⟨within.same, fun alive => absurd alive (Option.some_ne_none _),
        fun _ => ⟨past ++ past', todo', l'', ?_, ?_, ?_, ?_⟩⟩
      · rw [split, List.append_assoc]
      · rw [← count, List.length_append]
        omega
      · rw [Pass.gaps_append, Pass.run_bind_ok passed, passed']
      · exact parted.properties.trans same

/-- Whether a decoder is only asked to read. -/
def Op.reads : Op → Bool
  | .read _ | .readValue | .finish => true
  | .put .. | .reset => false

theorem performAll_within (sound : layout.Sound) (unseen : ∀ g ∈ layout.gaps, g.Unseen)
    {d : Decoder σ} (within : d.Within supply layout start) {ops : List Op}
    (reads : ∀ op ∈ ops, op.reads = true) : (d.performAll ops).2.Within supply layout start := by
  induction ops generalizing d with
  | nil => exact within
  | cons op rest ih =>
    obtain ⟨op_reads, rest_read⟩ := List.forall_mem_cons.mp reads
    refine ih ?_ rest_read
    cases op with
    | read n => exact lasts_within sound unseen d within n
    | readValue =>
      exact (readValue_keeps (lasts_within sound unseen) (fun _ => finish_within) within).1
    | finish => exact finish_within within
    | put | reset => cases op_reads

/-- The properties of a decoder in its pass are those that gaps leave, which are the gaps that it
has gone over if it has not failed. -/
theorem Within.gone {d : Decoder σ} (within : d.Within supply layout start) :
    ∃ past todo l, layout.gaps = past ++ todo ∧ d.passed ≤ past.length ∧
      (d.failed = none → d.passed = past.length) ∧ (Pass.gaps past).run start = (.ok (), l) ∧
      d.properties = l.properties := by
  have number {past todo : List Gap} (split : layout.gaps = past ++ todo) :
      d.passed = past.length + todo.length - d.agenda.count .close := by
    rw [passed, within.same, split, List.length_append]
  cases failed : d.failed with
  | none =>
    obtain ⟨past, todo, l, _, split, count, passed, same, -⟩ := (within.alive failed).todo
    have all := number split
    exact ⟨past, todo, l, split, by omega, fun _ => by omega, passed, same⟩
  | some e =>
    obtain ⟨past, todo, l, split, count, passed, same⟩ := within.stopped (by simp [failed])
    have all := number split
    exact ⟨past, todo, l, split, by omega, nofun, passed, same⟩

end Decoder

end TagWire
