import TagWire.Decoder.Basic
import TagWire.Proofs.Decoder.Tracking
import TagWire.Proofs.Layout.Sound

/-!
# Agendas and the pass

The tasks that are left of a layout stand for what is left of the pass over it. A task taken as a
whole hands on what the pass delivers, and a task taken up to its first bytes leaves tasks that
stand for the rest.

- `Task.passAll_tasks`: the tasks of a layout stand for the whole pass.
- `Task.sends_runAll`: taking all tasks at once.
- `Task.steps`: taking one task up to its first bytes.
-/

namespace TagWire

namespace Task

/-- The part of the pass that a task stands for. -/
def pass : Task → Pass Unit
  | derive derivation => Pass.derive derivation
  | send bytes => Pass.deliver bytes
  | hide p => Pass.hide p
  | load name origin literal size => Pass.loaded name origin literal size
  | counted p => Pass.counted p
  | forward origin n => Pass.forward origin n
  | convert p n => Pass.repeated (do Pass.deliver (← Pass.element p)) n
  | texts origin n => Pass.repeated (Pass.text origin) n
  | close => return ()

/-- The part of the pass that an agenda stands for. -/
def passAll : List Task → Pass Unit
  | [] => return ()
  | t :: rest => do
    t.pass
    passAll rest

theorem passAll_append (tasks others : List Task) :
    passAll (tasks ++ others) = (do passAll tasks; passAll others) := by
  induction tasks with
  | nil => rfl
  | cons t rest ih =>
    simp only [List.cons_append, passAll, ih]
    exact (Pass.bind_assoc ..).symm

/-- Tasks that are left of a task stand for the rest of it, whatever is behind them. -/
theorem passAll_resumed {t : Task} {tasks : List Task} {l l' : Ledger}
    (left : t.pass.run l = (passAll tasks).run l') (rest : List Task) :
    (passAll (t :: rest)).run l = (passAll (tasks ++ rest)).run l' := by
  rw [passAll_append]
  exact Pass.run_bind_congr left fun _ => passAll rest

theorem pass_elements (p : Payload) (n : Nat) : (p.elements n).pass = Pass.elements p n := by
  unfold Payload.elements Pass.elements
  cases p.kind.size? with
  | none => rfl
  | some size => cases p.conversion <;> rfl

theorem pass_task (p : Payload) : p.task.pass = Pass.payload p := by
  unfold Payload.task Pass.payload
  cases p.use with
  | skipped | saved | loaded => rfl
  | exchanged =>
    cases p.count with
    | fixed n => exact pass_elements p n
    | fromWire => rfl

theorem passAll_gap (g : Gap) : passAll g.tasks = Pass.gap g := by
  unfold Gap.tasks Pass.gap
  cases g.content with
  | nothing => rfl
  | derivation => rfl
  | data p =>
    simp only [passAll, pass_task]
    exact congrArg (Pass.deliver g.template >>= ·) (funext fun _ => Pass.bind_unit (Pass.payload p))

/-- The tasks of a layout stand for the pass over its gaps. -/
theorem passAll_tasks (gaps : List Gap) : passAll (gaps.flatMap Gap.tasks) = Pass.gaps gaps := by
  induction gaps with
  | nil => rfl
  | cons g rest ih => rw [List.flatMap_cons, passAll_append, passAll_gap, ih, Pass.gaps]

variable {σ : Type} [ByteStream σ] {supply : Supply σ}

theorem sends_run (t : Task) : Sends supply t.run t.pass := by
  cases t with
  | derive derivation => exact .silent (.derive derivation)
  | send bytes => exact .deliver supply bytes
  | hide p => exact .silent (.hide p)
  | load name origin literal size => exact .loaded name origin literal size
  | counted p => exact .counted p
  | forward origin n => exact .forward origin n
  | convert p n => exact .repeated (.of_follows (.element p)) n
  | texts origin n => exact .repeated (.text origin) n
  | close => exact .nothing supply

/-- Taking all tasks at once hands on what is left of the pass. -/
theorem sends_runAll (agenda : List Task) : Sends supply (runAll agenda) (passAll agenda) := by
  induction agenda with
  | nil => exact .nothing supply
  | cons t rest ih => exact (sends_run t).append ih

/-- Whether the task sends bytes of the tagged message. -/
def sends : Task → Bool
  | derive _ | hide _ | close => false
  | send _ | load .. | counted _ | forward .. | convert .. | texts .. => true

section
variable {R : Ledger → Ledger → Prop} (onward : Pass.Onward R)
include onward

/-- A task that sends bytes only delivers and takes. -/
theorem leads_pass {t : Task} (sends : t.sends = true) : Pass.Leads R t.pass := by
  cases t with
  | derive | hide | close => cases sends
  | send bytes => exact onward.deliver bytes
  | load name origin literal size => exact onward.loaded name origin literal size
  | counted p => exact onward.counted p
  | forward origin n => exact onward.forward origin n
  | convert p n => exact onward.repeated (onward.converted p) n
  | texts origin n => exact onward.repeated (onward.text origin) n

theorem leads_passAll {tasks : List Task} (lead : ∀ t ∈ tasks, Pass.Leads R t.pass) :
    Pass.Leads R (passAll tasks) := by
  induction tasks with
  | nil => exact onward.done ()
  | cons t rest ih =>
    obtain ⟨t_leads, rest_lead⟩ := List.forall_mem_cons.mp lead
    exact onward.bind t_leads fun _ => ih rest_lead

end

theorem keeps_pass (t : Task) : Pass.Keeps t.pass := by
  cases sends : t.sends with
  | true => exact leads_pass Pass.onward_extends sends
  | false =>
    cases t with
    | derive derivation => exact Pass.keeps_derive derivation
    | hide p => exact Pass.keeps_hide p
    | close => exact Pass.onward_extends.done ()
    | send | load | counted | forward | convert | texts => cases sends

theorem keeps_passAll (agenda : List Task) : Pass.Keeps (passAll agenda) :=
  leads_passAll Pass.onward_extends fun t _ => keeps_pass t

/-- A task of a sound layout. Such a task sends no empty bytes. -/
def Sound : Task → Prop
  | load _ _ _ size => 0 < size
  | convert p _ => p.Sound ∧ p.conversion ≠ .identity ∧ p.kind.size?.isSome
  | counted p => p.Sound
  | _ => True

theorem sound_elements {p : Payload} (sound : p.Sound) (n : Nat) : (p.elements n).Sound := by
  unfold Payload.elements
  cases size : p.kind.size? with
  | none => trivial
  | some =>
    cases conversion : p.conversion with
    | identity => trivial
    | narrow | pad => exact ⟨sound, by simp [conversion], by simp [size]⟩

theorem sound_task {p : Payload} (sound : p.Sound) : p.task.Sound := by
  unfold Payload.task
  cases use : p.use with
  | skipped | saved => trivial
  | loaded =>
    obtain ⟨size, h⟩ := Kind.size_of_isInteger (sound.loaded (by simp [use, Use.isLoaded])).1
    simp only [h, Option.getD_some]
    exact (Kind.size_pos h).1
  | exchanged =>
    cases p.count with
    | fixed n => exact sound_elements sound n
    | fromWire => exact sound

/-- What holds of all tasks of a layout. -/
theorem forall_tasks {P : Task → Prop} {l : Layout} (derives : ∀ derivation, P (derive derivation))
    (sends : ∀ bytes, P (send bytes)) (closes : P close)
    (data : ∀ g ∈ l.gaps, ∀ p, g.payload? = some p → P p.task) : ∀ t ∈ l.tasks, P t := by
  intro t member
  obtain ⟨g, in_layout, member⟩ := List.mem_flatMap.mp member
  have data := data g in_layout
  unfold Gap.tasks at member
  unfold Gap.payload? at data
  cases content : g.content with
  | nothing =>
    simp only [content, List.mem_cons, List.not_mem_nil, or_false] at member
    rcases member with rfl | rfl
    · exact sends _
    · exact closes
  | derivation derivation =>
    simp only [content, List.mem_cons, List.not_mem_nil, or_false] at member
    rcases member with rfl | rfl | rfl
    · exact derives derivation
    · exact sends _
    · exact closes
  | data p =>
    simp only [content, List.mem_cons, List.not_mem_nil, or_false] at member
    rcases member with rfl | rfl | rfl
    · exact sends _
    · exact data p (by simp [content])
    · exact closes

theorem sound_tasks {l : Layout} (sound : l.Sound) : ∀ t ∈ l.tasks, t.Sound :=
  forall_tasks (fun _ => trivial) (fun _ => trivial) trivial fun g member p data =>
    sound_task (sound g member p data)

/-- How a task ends that is taken up to its first bytes, beside the part of the pass that it stands
for: with bytes in hand, the tasks that are left of it stand for the rest of that part. -/
inductive Steps (supply : Supply σ) (delivered : Bytes) :
    Except Error Outcome × Channel σ → Except Error Unit × Ledger → Prop
  | silent {c l} (silent : l.delivered = delivered) (tracks : Tracks supply c l) :
      Steps supply delivered (.ok .silent, c) (.ok (), l)
  | sent {bytes tasks c l} (some_sent : bytes ≠ []) (sent : l.delivered = delivered ++ bytes)
      (tracks : Tracks supply c l) (sound : ∀ t ∈ tasks, t.Sound) :
      Steps supply delivered (.ok (.sent bytes tasks), c) ((passAll tasks).run l)
  | error {e c l} (silent : l.delivered = delivered) (parted : Parted supply c l) :
      Steps supply delivered (.error e, c) (.error e, l)

namespace Steps

variable {α : Type} {want : Nat}

/-- A task that reads before it goes on. -/
theorem bind {m : Reading (Channel σ) α} {p : Pass α} {f : α → Reading (Channel σ) Outcome}
    {q : α → Pass Unit} {c : Channel σ} {l : Ledger} (tracks : Tracks supply c l)
    (first : Follows supply m p)
    (rest : ∀ a c' l', p.run l = (.ok a, l') → Tracks supply c' l' →
      Steps supply l'.delivered ((f a).run c') ((q a).run l')) :
    Steps supply l.delivered ((m >>= f).run c) ((p >>= q).run l) := by
  have ends := first c l tracks
  generalize hm : m.run c = answer, hp : p.run l = answer' at ends
  cases ends with
  | @ok a c' l' silent tracks' =>
    rw [Reading.run_bind_ok hm, Pass.run_bind_ok hp, ← silent]
    exact rest a c' l' hp tracks'
  | error silent parted =>
    rw [Reading.run_bind_error hm, Pass.run_bind_error hp]
    exact .error silent parted

/-- A task that reads and sends nothing. -/
theorem still {m : Reading (Channel σ) Unit} {p : Pass Unit} {c : Channel σ} {l : Ledger}
    (tracks : Tracks supply c l) (reads : Follows supply m p) :
    Steps supply l.delivered ((do m; return .silent : Reading (Channel σ) Outcome).run c)
      (p.run l) := by
  have steps := bind tracks reads (f := fun _ => pure .silent) (q := fun _ => pure ())
    fun _ _ _ _ tracks' => .silent rfl tracks'
  rwa [Pass.bind_unit] at steps

/-- A task that sends bytes and goes on with other tasks. -/
theorem send {bytes : Bytes} {tasks : List Task} {c : Channel σ} {l : Ledger}
    (tracks : Tracks supply c l) (some_sent : bytes ≠ []) (sound : ∀ t ∈ tasks, t.Sound) :
    Steps supply l.delivered ((pure (.sent bytes tasks) : Reading (Channel σ) Outcome).run c)
      ((do Pass.deliver bytes; passAll tasks).run l) :=
  .sent some_sent rfl ⟨tracks.holds, tracks.failure, tracks.properties⟩ sound

end Steps

theorem passAll_single (t : Task) : passAll [t] = t.pass := Pass.bind_unit t.pass

theorem pass_convert_succ (p : Payload) (n : Nat) :
    (convert p (n + 1)).pass =
      (do let bytes ← Pass.element p
          Pass.deliver bytes
          passAll [convert p n]) := by
  rw [passAll_single]
  exact Pass.bind_assoc ..

theorem pass_texts_succ (origin : String) (n : Nat) :
    (texts origin (n + 1)).pass =
      (do let length ← Pass.length origin
          Pass.deliver (lengthBytes length)
          passAll [forward origin length, texts origin n]) := by
  have rest : passAll [texts origin n] = (texts origin n).pass := passAll_single _
  simp only [passAll, pass, Pass.repeated, Pass.text, Pass.bind_assoc] at rest ⊢
  simp only [rest]

theorem pass_counted (p : Payload) :
    (counted p).pass =
      (do let n ← Pass.length p.origin
          Pass.deliver (lengthBytes n)
          passAll [p.elements n]) := by
  simp only [passAll_single, pass_elements]
  rfl

theorem lengthBytes_ne_nil (n : Nat) : lengthBytes n ≠ [] := by
  intro empty
  have := congrArg List.length empty
  simp [lengthBytes] at this

/-- The tagged form of an element takes as many bytes as its kind. -/
theorem length_tagged {p : Payload} {wire bytes : Bytes} {size : Nat} (sound : p.Sound)
    (size_eq : p.kind.size? = some size) (outer : wire.length = p.wireSize?.getD 0)
    (h : tagged p wire = .ok bytes) : bytes.length = size := by
  unfold tagged at h
  cases conversion : p.conversion with
  | identity =>
    rw [conversion] at h
    cases h
    rw [outer, Payload.wireSize?, size_eq, conversion]
    rfl
  | narrow =>
    rw [conversion] at h
    cases h
    rw [sound.narrow conversion] at size_eq
    rw [Bytes.length_ofNat]
    exact Option.some.inj size_eq
  | pad wireSize signed =>
    rw [conversion] at h
    simp only [size_eq, Option.getD_some] at h
    obtain ⟨_, _, same, less, _⟩ := sound.pad conversion
    obtain rfl := Option.some.inj (size_eq.symm.trans same)
    rw [Payload.wireSize?, size_eq, conversion] at outer
    split at h
    · cases h
      rw [List.length_take, outer]
      exact Nat.min_eq_left (Nat.le_of_lt less)
    · cases h

section
variable {want : Nat} {c : Channel σ} {l : Ledger} (tracks : Tracks supply c l)
include tracks

/-- Bytes that are to go through where there are none fail as the pass does. -/
theorem steps_forward_ended (origin : String) {n : Nat} (some_wanted : n ≠ 0)
    (none_left : l.wire = []) (positive : 0 < want) :
    Steps supply l.delivered (((forward origin n).step want).run c)
      ((forward origin n).pass.run l) := by
  have request_pos : 0 < min want n := by omega
  obtain ⟨c', asked, spent, properties⟩ :=
    (supply.channel c.properties).request_stop ⟨none_left ▸ tracks.holds, rfl⟩ request_pos
  have met : Reading.request c (min want n) = ((ending supply.failure).map fun _ => [], c') := by
    rw [asked]
    cases failure : supply.failure <;> simp [Supply.channel, failure, ending, Except.map]
  have failed : ((forward origin n).step want).run c =
      (.error (l.contents.shortage origin n), c') := by
    rw [step, if_neg some_wanted, Contents.shortage_eq_getD, tracks.failure]
    exact Reading.run_bind_ending (Reading.run_once met origin) rfl
  have passed : (forward origin n).pass.run l =
      (.error (l.contents.shortage origin n), l.withWire []) := by
    simp [pass, Pass.run_forward, none_left, some_wanted, Ledger.withWire]
  rw [failed, passed]
  exact .error rfl ⟨.inr ⟨rfl, spent⟩, properties.trans tracks.properties⟩

/-- One request for bytes that go through as they are sends some of them and leaves the others. -/
theorem steps_forward_more (origin : String) {n : Nat} (some_wanted : n ≠ 0)
    (some_left : l.wire ≠ []) (positive : 0 < want) :
    Steps supply l.delivered (((forward origin n).step want).run c)
      ((forward origin n).pass.run l) := by
  have request_pos : 0 < min want n := by omega
  obtain ⟨b, first, later, c', split, bound, given, holds, properties⟩ :=
    (supply.channel c.properties).request_more ⟨tracks.holds, rfl⟩ some_left request_pos
  have once : (Reading.once origin (min want n)).run c = (.ok (b :: first), c') :=
    Reading.run_once given origin
  have within : (b :: first).length ≤ n := by
    simp only [List.length_cons]
    omega
  have rest : Pass.forward origin (n - (b :: first).length) =
      passAll [forward origin (n - (b :: first).length)] :=
    (passAll_single (forward origin (n - (b :: first).length))).symm
  rw [step, if_neg some_wanted, Reading.run_bind_ok once, pass, Pass.forward_split split within,
    rest]
  exact .sent (List.cons_ne_nil b first) rfl
    ⟨holds, tracks.failure, properties.trans tracks.properties⟩ (List.forall_mem_singleton.mpr trivial)

theorem steps_forward (origin : String) (n : Nat) (positive : 0 < want) :
    Steps supply l.delivered (((forward origin n).step want).run c)
      ((forward origin n).pass.run l) := by
  by_cases zero : n = 0
  · subst zero
    have passed : (forward origin 0).pass.run l =
        (.ok (), { l.withWire l.wire with delivered := l.delivered ++ [] }) := by
      simp [pass, Pass.run_forward]
    rw [passed]
    exact .silent (by simp) ⟨tracks.holds, tracks.failure, tracks.properties⟩
  · by_cases none_left : l.wire = []
    · exact steps_forward_ended tracks origin zero none_left positive
    · exact steps_forward_more tracks origin zero none_left positive

/-- What is loaded has as many bytes as it is said to have, and no task is left behind it. -/
theorem steps_load (name origin : String) (literal : Option Int64) {size : Nat}
    (some_bytes : 0 < size) :
    Steps supply l.delivered (((load name origin literal size).step want).run c)
      ((load name origin literal size).pass.run l) := by
  rw [pass, Pass.loaded, Pass.run_bind_ok (Reading.run_get l), step, loaded, bind_assoc,
    Reading.run_bind_ok (Reading.run_get c), tracks.properties]
  cases literal <|> l.properties.int? name with
  | none => exact .error rfl tracks.parted
  | some v =>
    refine Steps.send tracks ?_ (List.forall_mem_nil _)
    apply List.ne_nil_of_length_pos
    rwa [Bytes.length_ofInt]

/-- An element that looks different outside is sent by itself, and the other elements are left. -/
theorem steps_convert {p : Payload} {n : Nat} (sound : (convert p n).Sound) :
    Steps supply l.delivered (((convert p n).step want).run c) ((convert p n).pass.run l) := by
  cases n with
  | zero => exact .silent rfl tracks
  | succ n =>
    rw [pass_convert_succ]
    apply Steps.bind tracks (.element p)
    intro bytes c' l' read tracks'
    obtain ⟨wire, size, tagged, _⟩ := Pass.element_ok read
    obtain ⟨elementSize, fixed⟩ := Option.isSome_iff_exists.mp sound.2.2
    have some_bytes : bytes ≠ [] := by
      have length := length_tagged sound.1 fixed size tagged
      have size_pos := (Kind.size_pos fixed).1
      exact List.ne_nil_of_length_pos (by omega)
    exact Steps.send tracks' some_bytes (List.forall_mem_singleton.mpr sound)

/-- The length of a text is sent by itself, and the text and the other texts are left. -/
theorem steps_texts (origin : String) (n : Nat) :
    Steps supply l.delivered (((texts origin n).step want).run c) ((texts origin n).pass.run l) := by
  cases n with
  | zero => exact .silent rfl tracks
  | succ n =>
    rw [pass_texts_succ]
    apply Steps.bind tracks (.length origin)
    intro length c' l' _ tracks'
    exact Steps.send tracks' (lengthBytes_ne_nil length)
      (List.forall_mem_cons.mpr ⟨trivial, List.forall_mem_singleton.mpr trivial⟩)

/-- A task of a sound layout does what the pass does up to the first bytes that it sends. -/
theorem steps (t : Task) (sound : t.Sound) (positive : 0 < want) :
    Steps supply l.delivered ((t.step want).run c) (t.pass.run l) := by
  cases t with
  | derive derivation => exact .still tracks (.derive derivation)
  | send bytes =>
    by_cases empty : bytes = []
    · subst empty
      exact .silent (List.append_nil _) ⟨tracks.holds, tracks.failure, tracks.properties⟩
    · simp only [step, empty, ↓reduceIte]
      exact Steps.send tracks empty (List.forall_mem_nil _)
  | hide p => exact .still tracks (.hide p)
  | load name origin literal size => exact steps_load tracks name origin literal sound
  | counted p =>
    rw [pass_counted]
    apply Steps.bind tracks (.length p.origin)
    intro n c' l' _ tracks'
    exact Steps.send tracks' (lengthBytes_ne_nil n)
      (List.forall_mem_singleton.mpr (sound_elements sound n))
  | forward origin n => exact steps_forward tracks origin n positive
  | convert p n => exact steps_convert tracks sound
  | texts origin n => exact steps_texts tracks origin n
  | close => exact .silent rfl tracks

end

end Task

end TagWire
