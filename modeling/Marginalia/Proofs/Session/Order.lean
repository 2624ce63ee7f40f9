import Marginalia.Proofs.Session.Files
import Marginalia.Session.Event

/-!
# Sessions are written in order

The loop takes commands in the order in which they were queued and writes the newest session that it
has taken. So the sessions that were queued are, at any time, those that have been dealt with, those
that the loop has taken, and those that wait, one after another; and what is on disk is the last one
that has been dealt with.
-/

namespace Marginalia

/-- The newest session that the loop has taken and not yet written. -/
def WriterPhase.latest : WriterPhase → Option Session
  | .idle => none
  | .collecting batch => batch.latest
  | .writing batch => batch.latest

/-- The flushes that the loop has taken and not yet answered. -/
def WriterPhase.tickets : WriterPhase → List Nat
  | .idle => []
  | .collecting batch => batch.tickets
  | .writing batch => batch.tickets

namespace SessionWriter

/-- The folder holds a session, as it is written. -/
def Holds (w : SessionWriter) (session : Session) : Prop :=
  w.folder.read Session.fileName = .ok session.encode

/-- The sessions that wait to be taken. -/
def waiting (commands : List WriteCommand) : List Session :=
  commands.filterMap WriteCommand.session?

/-- The sessions queued before a flush are no more than a number. -/
def Reached (marks : List Nat) (ticket count : Nat) : Prop :=
  ∃ mark, marks[ticket]? = some mark ∧ mark ≤ count

theorem Reached.mono {marks : List Nat} {ticket count count' : Nat}
    (h : Reached marks ticket count) (hle : count ≤ count') : Reached marks ticket count' := by
  obtain ⟨mark, hmark, hcount⟩ := h
  exact ⟨mark, hmark, Nat.le_trans hcount hle⟩

theorem Reached.append {marks : List Nat} {ticket count : Nat} (h : Reached marks ticket count)
    (more : List Nat) : Reached (marks ++ more) ticket count := by
  obtain ⟨mark, hmark, hcount⟩ := h
  obtain ⟨hlt, -⟩ := List.getElem?_eq_some_iff.mp hmark
  exact ⟨mark, (List.getElem?_append_left hlt).trans hmark, hcount⟩

/-- The sessions queued so far are those dealt with, those taken and those waiting. The written ones
are among those dealt with, and the last one is on disk. For each flush `marks` has the number of
sessions that were queued before it, and the flush has not overtaken any of them. -/
structure Ordered (w : SessionWriter) (queued written dealt taken : List Session)
    (marks : List Nat) : Prop where
  takes : w.folder.TakesSessions
  queued_eq : queued = dealt ++ taken ++ waiting w.queue
  latest_eq : w.phase.latest = taken.getLast?
  sublist : written.Sublist dealt
  getLast?_eq : written.getLast? = dealt.getLast?
  holds : ∀ session, dealt.getLast? = some session → w.Holds session
  marks_length : marks.length = w.flushes
  answered : ∀ ticket ∈ w.answered, Reached marks ticket dealt.length
  tickets : ∀ ticket ∈ w.phase.tickets, Reached marks ticket (dealt.length + taken.length)
  queue : ∀ before ticket after, w.queue = before ++ .flush ticket :: after →
    Reached marks ticket (dealt.length + taken.length + (waiting before).length)

theorem ordered_new {folder : Folder} (h : folder.TakesSessions) :
    (new folder).Ordered [] [] [] [] [] where
  takes := h
  queued_eq := rfl
  latest_eq := rfl
  sublist := .slnil
  getLast?_eq := rfl
  holds _ hlast := by cases hlast
  marks_length := rfl
  answered _ hticket := by cases hticket
  tickets _ hticket := by cases hticket
  queue before ticket after hqueue := by simp [new] at hqueue

/-- A flush among commands to which one is added is that one or was there before. -/
theorem flush_of_append {commands before after : List WriteCommand} {command : WriteCommand}
    {ticket : Nat} (h : commands ++ [command] = before ++ .flush ticket :: after) :
    (∃ rest, commands = before ++ .flush ticket :: rest) ∨
      before = commands ∧ command = .flush ticket := by
  rcases List.eq_nil_or_concat after with rfl | ⟨rest, last, rfl⟩
  · obtain ⟨hbefore, hlast⟩ := List.append_inj' h rfl
    exact Or.inr ⟨hbefore.symm, List.head_eq_of_cons_eq hlast⟩
  · rw [List.concat_eq_append, ← List.cons_append, ← List.append_assoc] at h
    exact Or.inl ⟨rest, (List.append_inj' h rfl).1⟩

theorem toList_getLast?_sublist (sessions : List Session) :
    sessions.getLast?.toList.Sublist sessions := by
  rcases List.eq_nil_or_concat sessions with rfl | ⟨rest, last, rfl⟩
  · exact .slnil
  · rw [List.concat_eq_append, List.getLast?_concat]
    exact List.sublist_append_right rest [last]

namespace Ordered

variable {w : SessionWriter} {queued written dealt taken : List Session} {marks : List Nat}
  (h : w.Ordered queued written dealt taken marks)
include h

theorem save (session : Session) :
    (w.save session).Ordered (queued ++ [session]) written dealt taken marks where
  takes := h.takes
  queued_eq := by
    rw [h.queued_eq]
    simp [SessionWriter.save, waiting, WriteCommand.session?]
  latest_eq := h.latest_eq
  sublist := h.sublist
  getLast?_eq := h.getLast?_eq
  holds := h.holds
  marks_length := h.marks_length
  answered := h.answered
  tickets := h.tickets
  queue before ticket after hqueue := by
    rcases flush_of_append hqueue with ⟨rest, hrest⟩ | ⟨-, hlast⟩
    · exact h.queue before ticket rest hrest
    · cases hlast

theorem requestFlush :
    w.requestFlush.2.Ordered queued written dealt taken (marks ++ [queued.length]) where
  takes := h.takes
  queued_eq := by
    rw [h.queued_eq]
    simp [SessionWriter.requestFlush, waiting, WriteCommand.session?]
  latest_eq := h.latest_eq
  sublist := h.sublist
  getLast?_eq := h.getLast?_eq
  holds := h.holds
  marks_length := by simp [SessionWriter.requestFlush, h.marks_length]
  answered ticket hticket := (h.answered ticket hticket).append _
  tickets ticket hticket := (h.tickets ticket hticket).append _
  queue before ticket after hqueue := by
    rcases flush_of_append hqueue with ⟨rest, hrest⟩ | ⟨rfl, hlast⟩
    · exact (h.queue before ticket rest hrest).append _
    · cases hlast
      refine ⟨queued.length, ?_, ?_⟩
      · rw [← h.marks_length]
        simp
      · simp [h.queued_eq]
        omega

/-- The loop takes a command: a session is taken after the others, a flush is as far as before. -/
theorem take {command : WriteCommand} {rest : List WriteCommand}
    (hqueue : w.queue = command :: rest) (batch : WriteBatch)
    (hlatest : w.phase.latest = batch.latest)
    (htickets : ∀ ticket ∈ batch.tickets, ticket ∈ w.phase.tickets) :
    { w with phase := .collecting (batch.add command), queue := rest }.Ordered queued written dealt
      (taken ++ command.session?.toList) marks := by
  have hwaiting : ∀ commands, waiting (command :: commands) =
      command.session?.toList ++ waiting commands := by
    intro commands
    cases command <;> rfl
  refine ⟨h.takes, ?_, ?_, h.sublist, h.getLast?_eq, h.holds, h.marks_length, h.answered, ?_, ?_⟩
  · simp [h.queued_eq, hqueue, hwaiting]
  · cases command with
    | save session => exact List.getLast?_concat.symm
    | flush ticket =>
      show batch.latest = (taken ++ []).getLast?
      rw [List.append_nil, ← hlatest, h.latest_eq]
  · intro ticket hticket
    cases command with
    | save session =>
      exact (h.tickets ticket (htickets ticket hticket)).mono (by simp)
    | flush asked =>
      rcases List.mem_append.mp hticket with hold | hnew
      · exact (h.tickets ticket (htickets ticket hold)).mono (by simp)
      · obtain rfl := List.mem_singleton.mp hnew
        exact (h.queue [] ticket rest hqueue).mono (by simp [waiting])
  · intro before ticket after hrest
    have hreached := h.queue (command :: before) ticket after
      (hqueue.trans (congrArg (command :: ·) hrest))
    refine hreached.mono (Nat.le_of_eq ?_)
    rw [hwaiting, List.length_append, List.length_append]
    omega

/-- The loop has taken all there is and starts to write. -/
theorem start {batch : WriteBatch} (hphase : w.phase = .collecting batch) :
    { w with phase := .writing batch }.Ordered queued written dealt taken marks :=
  ⟨h.takes, h.queued_eq, by rw [← h.latest_eq, hphase]; rfl, h.sublist, h.getLast?_eq, h.holds,
    h.marks_length, h.answered,
    fun ticket hticket ↦ h.tickets ticket (by rw [hphase]; exact hticket), h.queue⟩

/-- What the loop has taken is written and the flushes are answered. -/
theorem finish {batch : WriteBatch} (hphase : w.phase = .writing batch) {folder : Folder}
    (hfolder : folder = match batch.latest with
      | some session => (session.save w.folder).2
      | none => w.folder) :
    { w with phase := .idle, folder := folder, answered := w.answered ++ batch.tickets }.Ordered
      queued (written ++ batch.latest.toList) (dealt ++ taken) [] marks := by
  have hlatest : batch.latest = taken.getLast? := by rw [← h.latest_eq, hphase]; rfl
  have hdisk : folder.TakesSessions ∧ ∀ session, (dealt ++ taken).getLast? = some session →
      folder.read Session.fileName = .ok session.encode := by
    cases hlast : taken.getLast? with
    | none =>
      rw [hlatest, hlast] at hfolder
      rw [List.getLast?_eq_none_iff.mp hlast, List.append_nil, hfolder]
      exact ⟨h.takes, h.holds⟩
    | some session =>
      rw [hlatest, hlast] at hfolder
      obtain ⟨saved, hsaved, htakes, hread⟩ := Session.save_of_takesSessions h.takes session
      dsimp only at hfolder
      rw [hfolder, hsaved]
      refine ⟨htakes, fun last hlast' ↦ ?_⟩
      rw [List.getLast?_append, hlast] at hlast'
      cases hlast'
      exact hread
  refine ⟨hdisk.1, ?_, rfl, ?_, ?_, hdisk.2, h.marks_length, ?_, ?_, ?_⟩
  · rw [h.queued_eq, List.append_nil]
  · refine h.sublist.append ?_
    rw [hlatest]
    exact toList_getLast?_sublist taken
  · rw [List.getLast?_append, List.getLast?_append, h.getLast?_eq, hlatest]
    cases taken.getLast? <;> rfl
  · intro ticket hticket
    rw [List.length_append]
    rcases List.mem_append.mp hticket with hold | hnew
    · exact (h.answered ticket hold).mono (Nat.le_add_right _ _)
    · exact h.tickets ticket (by rw [hphase]; exact hnew)
  · intro ticket hticket
    cases hticket
  · intro before ticket after hqueue
    simpa [Nat.add_assoc] using h.queue before ticket after hqueue

/-- Whatever the loop does next keeps the order. -/
theorem write : ∃ dealt' taken', (w.perform .write).Ordered queued
    (written ++ (w.writtenBy .write).toList) dealt' taken' marks := by
  cases hphase : w.phase with
  | idle =>
    rw [writtenBy, hphase, Option.toList_none, List.append_nil]
    cases hqueue : w.queue with
    | nil => exact ⟨dealt, taken, by simpa [perform, step, hphase, hqueue] using h⟩
    | cons command rest =>
      refine ⟨dealt, taken ++ command.session?.toList, ?_⟩
      rw [perform, step, hphase, hqueue]
      exact h.take hqueue WriteBatch.empty (by rw [hphase]; rfl) (by simp [WriteBatch.empty])
  | collecting batch =>
    rw [writtenBy, hphase, Option.toList_none, List.append_nil]
    cases hqueue : w.queue with
    | nil =>
      exact ⟨dealt, taken, by simpa [perform, step, hphase, hqueue] using h.start hphase⟩
    | cons command rest =>
      refine ⟨dealt, taken ++ command.session?.toList, ?_⟩
      rw [perform, step, hphase, hqueue]
      exact h.take hqueue batch (by rw [hphase]; rfl) (by rw [hphase]; exact fun _ ↦ id)
  | writing batch =>
    refine ⟨dealt ++ taken, [], ?_⟩
    rw [perform, step, writtenBy, hphase]
    exact h.finish hphase rfl

/-- Whatever happens keeps the order. -/
theorem event (event : Event) : ∃ dealt' taken' more, (w.perform event).Ordered
    (queued ++ event.session?.toList) (written ++ (w.writtenBy event).toList) dealt' taken'
    (marks ++ more) := by
  cases event with
  | save session =>
    refine ⟨dealt, taken, [], ?_⟩
    rw [List.append_nil]
    simpa [perform, writtenBy, Event.session?] using h.save session
  | flush =>
    refine ⟨dealt, taken, [queued.length], ?_⟩
    simpa [perform, writtenBy, Event.session?] using h.requestFlush
  | write =>
    obtain ⟨dealt', taken', hordered⟩ := h.write
    refine ⟨dealt', taken', [], ?_⟩
    simpa [Event.session?] using hordered

end Ordered

/-- In every run sessions are written in the order in which they were queued. -/
theorem Ordered.run {w : SessionWriter} {queued written dealt taken : List Session}
    {marks : List Nat} (h : w.Ordered queued written dealt taken marks) (events : List Event) :
    ∃ dealt' taken' more, (w.run events).Ordered (queued ++ SessionWriter.queued events)
      (written ++ w.written events) dealt' taken' (marks ++ more) := by
  induction events generalizing w queued written dealt taken marks with
  | nil =>
    refine ⟨dealt, taken, [], ?_⟩
    simpa [SessionWriter.run, SessionWriter.queued, SessionWriter.written] using h
  | cons event rest ih =>
    obtain ⟨dealt', taken', more, hperform⟩ := h.event event
    obtain ⟨dealt'', taken'', more', hrun⟩ := ih hperform
    refine ⟨dealt'', taken'', more ++ more', ?_⟩
    have hqueued : SessionWriter.queued (event :: rest) =
        event.session?.toList ++ SessionWriter.queued rest := by
      cases event <;> rfl
    rw [hqueued, SessionWriter.written, ← List.append_assoc, ← List.append_assoc,
      ← List.append_assoc]
    exact hrun

theorem run_append (w : SessionWriter) (before after : List Event) :
    w.run (before ++ after) = (w.run before).run after :=
  List.foldl_append

/-- A flush that was answered came after all that was queued before it, so the session on disk is
the last of those or one that was queued later. -/
theorem Ordered.holds_of_answered {w : SessionWriter}
    {before after written dealt taken : List Session} {marks : List Nat} {ticket : Nat}
    (h : w.Ordered (before ++ after) written dealt taken marks)
    (hmark : marks[ticket]? = some before.length) (hticket : ticket ∈ w.answered)
    (hne : before ≠ []) :
    ∃ session, (before.getLast? = some session ∨ session ∈ after) ∧ w.Holds session := by
  obtain ⟨mark, hmark', hle⟩ := h.answered ticket hticket
  obtain rfl : before.length = mark := Option.some.inj (hmark.symm.trans hmark')
  -- What has been dealt with goes beyond the sessions queued before the flush.
  obtain ⟨extra, rfl⟩ : before <+: dealt :=
    List.prefix_of_prefix_length_le (List.prefix_append before after)
      (by rw [h.queued_eq, List.append_assoc]; exact List.prefix_append _ _) hle
  have hafter : after = extra ++ taken ++ waiting w.queue := by
    have := h.queued_eq
    simpa [List.append_assoc] using this
  cases hextra : extra.getLast? with
  | none =>
    obtain rfl := List.getLast?_eq_none_iff.mp hextra
    have hlast := List.getLast?_eq_some_getLast hne
    exact ⟨before.getLast hne, Or.inl hlast, h.holds _ (by rw [List.append_nil, hlast])⟩
  | some session =>
    refine ⟨session, Or.inr ?_, h.holds _ (by rw [List.getLast?_append, hextra]; rfl)⟩
    rw [hafter]
    exact List.mem_append_left _ (List.mem_append_left _ (List.mem_of_getLast? hextra))

/-- When there is nothing left to do, the session queued last is on disk. -/
theorem Ordered.holds_of_idle {w : SessionWriter} {queued written dealt taken : List Session}
    {marks : List Nat} (h : w.Ordered queued written dealt taken marks) (hphase : w.phase = .idle)
    (hqueue : w.queue = []) {session : Session} (hlast : queued.getLast? = some session) :
    w.Holds session := by
  have htaken : taken = [] :=
    List.getLast?_eq_none_iff.mp (by rw [← h.latest_eq, hphase]; rfl)
  rw [h.queued_eq, hqueue, htaken] at hlast
  exact h.holds session (by simpa [waiting] using hlast)

/-- In a folder where saving works, whatever the order in which sessions are queued, flushes are
asked for and the loop goes on:
* the sessions that are written are some of those queued, in that order, and the last is on disk;
* once a flush is answered, the session on disk, which is what is loaded, is the last that had been
  queued before the flush, or one queued later;
* when there is nothing left to do, the session queued last is on disk.

A flush before any session was queued has nothing to wait for. -/
theorem sessions_in_order (folder : Folder) (h : folder.TakesSessions) (events : List Event) :
    (((new folder).written events).Sublist (queued events) ∧
      ∀ session, ((new folder).written events).getLast? = some session →
        ((new folder).run events).Holds session) ∧
    (∀ before after, events = before ++ .flush :: after → queued before ≠ [] →
      ((new folder).run before).flushes ∈ ((new folder).run events).answered →
        ∃ session, ((queued before).getLast? = some session ∨ session ∈ queued after) ∧
          ((new folder).run events).Holds session ∧
          Session.load ((new folder).run events).folder = .ok (Session.decode? session.encode)) ∧
    (((new folder).run events).phase = .idle → ((new folder).run events).queue = [] →
      ∀ session, (queued events).getLast? = some session →
        ((new folder).run events).Holds session) := by
  obtain ⟨dealt, taken, marks, hordered⟩ := (ordered_new h).run events
  simp only [List.nil_append] at hordered
  refine ⟨⟨?_, ?_⟩, ?_, ?_⟩
  · refine hordered.sublist.trans ?_
    rw [hordered.queued_eq, List.append_assoc]
    exact List.sublist_append_left _ _
  · intro session hlast
    exact hordered.holds session (hordered.getLast?_eq ▸ hlast)
  · rintro before after rfl hne hanswered
    obtain ⟨dealt₀, taken₀, marks₀, hbefore⟩ := (ordered_new h).run before
    obtain ⟨dealt', taken', more, hafter⟩ := hbefore.requestFlush.run after
    simp only [List.nil_append] at hbefore hafter
    rw [run_append] at hanswered ⊢
    have hmark : (marks₀ ++ [(queued before).length] ++ more)[((new folder).run before).flushes]? =
        some (queued before).length := by
      rw [← hbefore.marks_length]
      simp
    obtain ⟨session, hfrom, hholds⟩ := hafter.holds_of_answered hmark hanswered hne
    exact ⟨session, hfrom, hholds, Session.load_of_read hholds⟩
  · intro hphase hqueue session hlast
    exact hordered.holds_of_idle hphase hqueue hlast

/-- A session of an empty document. -/
def plainSession (page : Nat) : Session :=
  ⟨⟨"a"⟩, none, .empty, page, 1, ⟨0, 0⟩⟩

/-- The loop takes two sessions and a flush between them together: it writes the second one only and
answers the flush. -/
theorem sessions_in_order_together :
    let events := [Event.save (plainSession 1), .flush, .save (plainSession 2), .write, .write,
      .write, .write, .write]
    let w := (new .missing).run events
    Folder.missing.TakesSessions ∧ w.answered = [0] ∧
      (∃ session, session ∈ [plainSession 1, plainSession 2] ∧ w.Holds session ∧
        Session.load w.folder = .ok (Session.decode? session.encode)) ∧
      w.Holds (plainSession 2) := by
  intro events w
  obtain ⟨-, hflush, hidle⟩ := sessions_in_order .missing trivial events
  obtain ⟨session, hfrom, hholds, hload⟩ := hflush [.save (plainSession 1)] _ rfl
    (List.cons_ne_nil _ _) (List.mem_singleton_self 0)
  refine ⟨trivial, rfl, ⟨session, ?_, hholds, hload⟩, hidle rfl rfl (plainSession 2) rfl⟩
  rcases hfrom with hlast | hlater
  · cases hlast
    exact List.mem_cons_self
  · exact List.mem_cons_of_mem _ hlater

end SessionWriter

end Marginalia
