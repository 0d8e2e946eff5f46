import Moirae.Core.Saga

/-! Which rollback commands come out of the cache after any calls of
`Saga.process`. The stream id is cut at its first colon, and a missing
correlation id is rendered like the id `undefined`. -/
namespace Moirae.SagaManager

variable {Data : Type}

/-- The cache after these calls, which started with an empty one. -/
def processAll (calls : List (Saga Data × IEvent Data)) : MemoryCache :=
  calls.foldl (fun cache call => (call.1.process call.2 cache).1) .new

/-- Everything that the steps run by these calls registered. -/
def registrations (calls : List (Saga Data × IEvent Data)) : List Registration :=
  calls.flatMap fun call => call.1.registers call.2 (call.1.handlers call.2)

/-- The cache holds what was registered, and nothing else. -/
theorem represents_processAll {calls : List (Saga Data × IEvent Data)}
    (hCache : ∀ call ∈ calls, call.1.cacheController = true) :
    (processAll calls).Represents (Registration.entries (registrations calls)) := by
  have hFrom : ∀ (cache : MemoryCache) (before : List Registration),
      cache.Represents (Registration.entries before) →
      (calls.foldl (fun cache call => (call.1.process call.2 cache).1) cache).Represents
        (Registration.entries (before ++ registrations calls)) := by
    induction calls with
    | nil =>
        intro cache before h
        rw [registrations, List.flatMap_nil, List.append_nil]
        exact h
    | cons call calls ih =>
        intro cache before h
        have hFirst : (call.1.process call.2 cache).1.Represents (Registration.entries
            (before ++ call.1.registers call.2 (call.1.handlers call.2))) :=
          Saga.represents_process (hCache call List.mem_cons_self) h
        have hRest := ih (fun other hOther => hCache other (List.mem_cons_of_mem _ hOther)) _ _
          hFirst
        rw [List.append_assoc] at hRest
        exact hRest
  exact hFrom .new [] MemoryCache.represents_new

/-- The commands are exactly one for each pair registered under the id, built
with the stream id as it is. -/
def RollsBackExactly (registered : List Registration) (correlationId : Option String)
    (result : Except Thrown (List RollbackCommand)) : Prop :=
  ∃ commands, result = .ok commands ∧ commands.Nodup ∧ ∀ command, command ∈ commands ↔
    ∃ r ∈ registered, r.correlationId = correlationId ∧
      command = ⟨r.command, some r.streamId, correlationId⟩

/-- No stream registered under the id has a colon in its name, and whatever was
registered under an id that is rendered alike was registered under this one. -/
def Unambiguous (registered : List Registration) (correlationId : Option String) : Prop :=
  (∀ r ∈ registered, r.correlationId = correlationId → ':' ∉ r.streamId.toList) ∧
    ∀ r ∈ registered, render r.correlationId = render correlationId →
      ∃ r' ∈ registered, r'.correlationId = correlationId ∧ r'.command = r.command ∧
        r'.streamId = r.streamId

/-- The class is found under its name, and there is no colon at which its entry
could be split at the wrong place. -/
def RoundTrips (storage : ConstructorStorage) (r : Registration) : Prop :=
  storage.get r.command.name = some r.command ∧ ':' ∉ r.command.name.toList ∧
    ':' ∉ r.streamId.toList

/-- Every pair registered under the id is read back as what it is, and there are
no other entries under its key. -/
def ReadsBack (storage : ConstructorStorage) (registered : List Registration)
    (correlationId : Option String) : Prop :=
  (∀ r ∈ registered, r.correlationId = correlationId → RoundTrips storage r) ∧
    ∀ r ∈ registered, render r.correlationId = render correlationId →
      ∃ r' ∈ registered, r'.correlationId = correlationId ∧ r'.entry = r.entry

section

variable {storage : ConstructorStorage} {registered : List Registration}
  {correlationId : Option String}

/-- The entries under the key of an id are those of the registrations whose id
is rendered alike. -/
theorem mem_entries_correlationKey {text : String} :
    text ∈ (Registration.entries registered (correlationKey correlationId)).values ↔
      ∃ r ∈ registered, render r.correlationId = render correlationId ∧ r.entry = text := by
  rw [Registration.mem_entries]
  simp only [Registration.key, correlationKey_eq_iff]

/-- What an entry is decoded to, with classes that are found under colon-free
names. -/
theorem construct_entry {r : Registration}
    (hFound : storage.get r.command.name = some r.command)
    (hName : ':' ∉ r.command.name.toList) :
    construct storage correlationId r.entry =
      .ok ⟨r.command, some (Separated.upTo ':' r.streamId), correlationId⟩ :=
  construct_commandKey hFound hName _ _

theorem RoundTrips.construct_entry {r : Registration} (h : RoundTrips storage r)
    (correlationId : Option String) :
    construct storage correlationId r.entry =
      .ok ⟨r.command, some r.streamId, correlationId⟩ := by
  obtain ⟨hFound, hName, hStream⟩ := h
  rw [SagaManager.construct_entry hFound hName, Separated.upTo_eq_self hStream]

/-- The class of a command that was built is found under the first piece of its
entry, and its stream is the second one. -/
theorem construct_eq_ok {text : String} {command : RollbackCommand}
    (h : construct storage correlationId text = .ok command) :
    storage.get (Separated.upTo ':' text) = some command.commandClass ∧
      ∀ streamId, command.streamId = some streamId → ':' ∉ streamId.toList := by
  obtain ⟨rest, hSplit⟩ := Separated.exists_split ':' text
  rw [construct, hSplit] at h
  cases hGet : storage.get (Separated.upTo ':' text) with
  | none => simp [hGet] at h
  | some commandClass =>
      simp only [hGet, Except.ok.injEq] at h
      subst h
      refine ⟨rfl, fun streamId hStream => ?_⟩
      have hPiece : streamId ∈ Separated.split ':' text := by
        rw [hSplit]
        exact List.mem_cons_of_mem _ (List.mem_of_mem_head? hStream)
      exact Separated.not_mem_of_mem_split hPiece

/-- An entry can be turned into a command if its first piece names a class. -/
theorem exists_construct_iff (correlationId : Option String) {text : String} :
    (∃ command, construct storage correlationId text = .ok command) ↔
      storage.get (Separated.upTo ':' text) ≠ none := by
  constructor
  · rintro ⟨command, hBuilt⟩
    rw [(construct_eq_ok hBuilt).1]
    exact Option.some_ne_none _
  · intro hSome
    obtain ⟨commandClass, hGet⟩ := Option.ne_none_iff_exists'.mp hSome
    obtain ⟨rest, hSplit⟩ := Separated.exists_split ':' text
    exact ⟨⟨commandClass, rest.head?, correlationId⟩, by simp only [construct, hSplit, hGet]⟩

/-- The commands read back are those of the pairs registered under the id, each
once, exactly when all of them are read back. No class may be found under the
name of another one. -/
theorem rollsBackExactly_iff_readsBack
    (hNamed : ∀ r ∈ registered, ∀ found, storage.get (Separated.upTo ':' r.entry) = some found →
      found.name = Separated.upTo ':' r.entry) :
    RollsBackExactly registered correlationId
        ((Registration.entries registered (correlationKey correlationId)).values.mapM
          (construct storage correlationId)) ↔
      ReadsBack storage registered correlationId := by
  have hEntries := (Registration.entries registered (correlationKey correlationId)).distinct
  constructor
  · rintro ⟨commands, hCommands, hDistinct, hExact⟩
    have hOwn : ∀ r ∈ registered, r.correlationId = correlationId → RoundTrips storage r := by
      intro r hr hId
      obtain ⟨text, hText, hBuilt⟩ :=
        (Traversal.mem_iff hCommands).mp ((hExact _).mpr ⟨r, hr, hId, rfl⟩)
      obtain ⟨s, hs, -, rfl⟩ := mem_entries_correlationKey.mp hText
      obtain ⟨hGet, hStream⟩ := construct_eq_ok hBuilt
      have hName := hNamed s hs _ hGet
      rw [← hName] at hGet
      refine ⟨hGet, ?_, hStream r.streamId rfl⟩
      change r.command.name = _ at hName
      rw [hName]
      exact Separated.not_mem_upTo ':' _
    refine ⟨hOwn, fun r hr hRender => ?_⟩
    have hEntry := mem_entries_correlationKey.mpr ⟨r, hr, hRender, rfl⟩
    obtain ⟨command, hBuilt⟩ := Traversal.exists_ok_iff.mp ⟨commands, hCommands⟩ _ hEntry
    obtain ⟨r', hr', hId, rfl⟩ :=
      (hExact _).mp ((Traversal.mem_iff hCommands).mpr ⟨_, hEntry, hBuilt⟩)
    -- Both entries give the same command, so they are one entry.
    refine ⟨r', hr', hId, (Traversal.nodup_iff hCommands hEntries).mp hDistinct _
      (mem_entries_correlationKey.mpr ⟨r', hr', congrArg render hId, rfl⟩) _ hEntry ?_⟩
    rw [hBuilt, (hOwn r' hr' hId).construct_entry correlationId]
  · rintro ⟨hOwn, hShared⟩
    have hText : ∀ text,
        text ∈ (Registration.entries registered (correlationKey correlationId)).values ↔
          ∃ r ∈ registered, r.correlationId = correlationId ∧ r.entry = text := by
      intro text
      rw [mem_entries_correlationKey]
      constructor
      · rintro ⟨r, hr, hRender, rfl⟩
        exact hShared r hr hRender
      · rintro ⟨r, hr, hId, hEntry⟩
        exact ⟨r, hr, congrArg render hId, hEntry⟩
    obtain ⟨commands, hCommands⟩ := Traversal.exists_ok_iff.mpr fun text hMem => by
      obtain ⟨r, hr, hId, rfl⟩ := (hText text).mp hMem
      exact ⟨_, (hOwn r hr hId).construct_entry correlationId⟩
    refine ⟨commands, hCommands, (Traversal.nodup_iff hCommands hEntries).mpr ?_, fun command => ?_⟩
    · intro text hMem text' hMem' hSame
      obtain ⟨r, hr, hId, rfl⟩ := (hText text).mp hMem
      obtain ⟨r', hr', hId', rfl⟩ := (hText text').mp hMem'
      rw [(hOwn r hr hId).construct_entry correlationId,
        (hOwn r' hr' hId').construct_entry correlationId] at hSame
      obtain ⟨hClass, hStream, -⟩ := RollbackCommand.mk.inj (Except.ok.inj hSame)
      rw [Registration.entry, Registration.entry, hClass, Option.some.inj hStream]
    · rw [Traversal.mem_iff hCommands]
      constructor
      · rintro ⟨text, hMem, hBuilt⟩
        obtain ⟨r, hr, hId, rfl⟩ := (hText text).mp hMem
        rw [(hOwn r hr hId).construct_entry correlationId] at hBuilt
        exact ⟨r, hr, hId, (Except.ok.inj hBuilt).symm⟩
      · rintro ⟨r, hr, hId, rfl⟩
        exact ⟨r.entry, (hText _).mpr ⟨r, hr, hId, rfl⟩,
          (hOwn r hr hId).construct_entry correlationId⟩

/-- Entries of registrations determine class and stream. -/
theorem entry_injective {r r' : Registration} (hName : ':' ∉ r.command.name.toList)
    (hName' : ':' ∉ r'.command.name.toList) (hFound : storage.get r.command.name = some r.command)
    (hFound' : storage.get r'.command.name = some r'.command) (h : r.entry = r'.entry) :
    r.command = r'.command ∧ r.streamId = r'.streamId := by
  obtain ⟨hSame, hStream⟩ := Separated.join_injective hName hName' h
  rw [hSame, hFound'] at hFound
  exact ⟨(Option.some.inj hFound).symm, hStream⟩

section

variable (hFound : ∀ r ∈ registered, storage.get r.command.name = some r.command)
  (hNames : ∀ r ∈ registered, ':' ∉ r.command.name.toList)

include hFound hNames

/-- Every entry under the key is decoded. -/
theorem exists_commands (correlationId : Option String) : ∃ commands,
    (Registration.entries registered (correlationKey correlationId)).values.mapM
      (construct storage correlationId) = .ok commands := by
  refine Traversal.exists_ok_iff.mpr fun text hText => ?_
  obtain ⟨r, hr, -, rfl⟩ := mem_entries_correlationKey.mp hText
  exact ⟨_, construct_entry (hFound r hr) (hNames r hr)⟩

variable {commands : List RollbackCommand}
  (hCommands : (Registration.entries registered (correlationKey correlationId)).values.mapM
    (construct storage correlationId) = .ok commands)

include hCommands

/-- The commands read back are those of the registrations whose id is rendered
alike, with their streams cut. -/
theorem mem_commands_iff (command : RollbackCommand) :
    command ∈ commands ↔ ∃ r ∈ registered, render r.correlationId = render correlationId ∧
      command = ⟨r.command, some (Separated.upTo ':' r.streamId), correlationId⟩ := by
  rw [Traversal.mem_iff hCommands]
  constructor
  · rintro ⟨text, hText, hBuilt⟩
    obtain ⟨r, hr, hRender, rfl⟩ := mem_entries_correlationKey.mp hText
    rw [construct_entry (hFound r hr) (hNames r hr)] at hBuilt
    exact ⟨r, hr, hRender, (Except.ok.inj hBuilt).symm⟩
  · rintro ⟨r, hr, hRender, rfl⟩
    exact ⟨r.entry, mem_entries_correlationKey.mpr ⟨r, hr, hRender, rfl⟩,
      construct_entry (hFound r hr) (hNames r hr)⟩

/-- No command is read back twice exactly when entries whose streams are cut
alike are one entry. -/
theorem nodup_commands_iff :
    commands.Nodup ↔ ∀ r ∈ registered, render r.correlationId = render correlationId →
      ∀ r' ∈ registered, render r'.correlationId = render correlationId →
        r.command = r'.command →
        Separated.upTo ':' r.streamId = Separated.upTo ':' r'.streamId → r.entry = r'.entry := by
  rw [Traversal.nodup_iff hCommands
    (Registration.entries registered (correlationKey correlationId)).distinct]
  constructor
  · intro hOnce r hr hRender r' hr' hRender' hClass hStream
    refine hOnce _ (mem_entries_correlationKey.mpr ⟨r, hr, hRender, rfl⟩) _
      (mem_entries_correlationKey.mpr ⟨r', hr', hRender', rfl⟩) ?_
    rw [construct_entry (hFound r hr) (hNames r hr),
      construct_entry (hFound r' hr') (hNames r' hr'), hClass, hStream]
  · intro hOnce text hText text' hText' hSame
    obtain ⟨r, hr, hRender, rfl⟩ := mem_entries_correlationKey.mp hText
    obtain ⟨r', hr', hRender', rfl⟩ := mem_entries_correlationKey.mp hText'
    rw [construct_entry (hFound r hr) (hNames r hr),
      construct_entry (hFound r' hr') (hNames r' hr')] at hSame
    injection hSame with hEq
    injection hEq with hClass hStream
    exact hOnce r hr hRender r' hr' hRender' hClass (Option.some.inj hStream)

omit hCommands

/-- Where the classes are found under their colon-free names, everything is read
back exactly if that is unambiguous. -/
theorem readsBack_iff_unambiguous :
    ReadsBack storage registered correlationId ↔ Unambiguous registered correlationId := by
  constructor
  · rintro ⟨hOwn, hShared⟩
    refine ⟨fun r hr hId => (hOwn r hr hId).2.2, fun r hr hRender => ?_⟩
    obtain ⟨r', hr', hId, hEntry⟩ := hShared r hr hRender
    exact ⟨r', hr', hId, entry_injective (hNames r' hr') (hNames r hr) (hFound r' hr')
      (hFound r hr) hEntry⟩
  · rintro ⟨hColon, hShared⟩
    refine ⟨fun r hr hId => ⟨hFound r hr, hNames r hr, hColon r hr hId⟩, fun r hr hRender => ?_⟩
    obtain ⟨r', hr', hId, hClass, hStream⟩ := hShared r hr hRender
    refine ⟨r', hr', hId, ?_⟩
    rw [Registration.entry, Registration.entry, hClass, hStream]

/-- The commands read back are those of the pairs registered, exactly when
reading them back is unambiguous. -/
theorem rollsBackExactly_mapM_iff :
    RollsBackExactly registered correlationId
        ((Registration.entries registered (correlationKey correlationId)).values.mapM
          (construct storage correlationId)) ↔
      Unambiguous registered correlationId := by
  rw [← readsBack_iff_unambiguous hFound hNames]
  refine rollsBackExactly_iff_readsBack fun r hr found hGet => ?_
  rw [Registration.entry, commandKey, Separated.upTo_join (hNames r hr)] at hGet ⊢
  rw [hFound r hr] at hGet
  rw [← Option.some.inj hGet]

end

end

/-- After any calls of `process`, a rollback gives exactly one command for each
pair registered under the id if and only if no stream registered under it has a
colon in its name, and no pair registered without an id is mistaken for one of
the id `undefined`. -/
theorem rollbackSagas_exact_iff (storage : ConstructorStorage)
    (calls : List (Saga Data × IEvent Data)) (correlationId : Option String)
    (hCache : ∀ call ∈ calls, call.1.cacheController = true)
    (hFound : ∀ r ∈ registrations calls, storage.get r.command.name = some r.command)
    (hNames : ∀ r ∈ registrations calls, ':' ∉ r.command.name.toList) :
    RollsBackExactly (registrations calls) correlationId
        (rollbackSagas storage (processAll calls) correlationId) ↔
      Unambiguous (registrations calls) correlationId := by
  rw [rollbackSagas_eq (represents_processAll hCache)]
  exact rollsBackExactly_mapM_iff hFound hNames

/-! ## A saga with one step -/

def noMoreHelloCommand : RollbackCommandConstructor := ⟨"NoMoreHelloCommand", 0⟩

def sayWorldCommand : ICommand Unit := ⟨none, (), none, "SayWorldCommand", "c1"⟩

/-- Every greeting is answered, and taken back when the answer fails. -/
def helloWorldSaga : Saga Unit :=
  Saga.onApplicationBootstrap
    { metadata := [⟨"HelloSaidEvent", "sayHelloWorld", noMoreHelloCommand⟩]
      methods := fun _ _ => .ok [some sayWorldCommand]
      cacheController := true
      sagaMap := .empty }

def helloSaidEvent (correlationId : Option String) (streamId : String) : IEvent Unit :=
  ⟨correlationId, (), none, "HelloSaidEvent", streamId, 0, "e1"⟩

def helloStorage : ConstructorStorage := ConstructorStorage.register .empty noMoreHelloCommand

theorem helloStorage_keyed : helloStorage.Keyed :=
  ConstructorStorage.keyed_empty.register noMoreHelloCommand

theorem rollbackSagas_exact_iff_hello :
    RollsBackExactly
        (registrations [(helloWorldSaga, helloSaidEvent (some "tx") "hello-1"),
          (helloWorldSaga, helloSaidEvent none "hello:2"),
          (helloWorldSaga, helloSaidEvent (some "tx") "hello-1")]) (some "tx")
        (rollbackSagas helloStorage
          (processAll [(helloWorldSaga, helloSaidEvent (some "tx") "hello-1"),
            (helloWorldSaga, helloSaidEvent none "hello:2"),
            (helloWorldSaga, helloSaidEvent (some "tx") "hello-1")]) (some "tx")) ↔
      Unambiguous
        (registrations [(helloWorldSaga, helloSaidEvent (some "tx") "hello-1"),
          (helloWorldSaga, helloSaidEvent none "hello:2"),
          (helloWorldSaga, helloSaidEvent (some "tx") "hello-1")]) (some "tx") :=
  rollbackSagas_exact_iff helloStorage _ _ (by simp [helloWorldSaga, Saga.onApplicationBootstrap])
    (by decide) (by decide)

/-- The stream `tenant:42` is rolled back as `tenant`. -/
theorem rollbackSagas_cuts_stream :
    rollbackSagas helloStorage
        (processAll [(helloWorldSaga, helloSaidEvent (some "tx") "tenant:42")]) (some "tx") =
      .ok [⟨noMoreHelloCommand, some "tenant", some "tx"⟩] ∧
    ¬RollsBackExactly (registrations [(helloWorldSaga, helloSaidEvent (some "tx") "tenant:42")])
      (some "tx") (rollbackSagas helloStorage
        (processAll [(helloWorldSaga, helloSaidEvent (some "tx") "tenant:42")]) (some "tx")) := by
  have hResult : rollbackSagas helloStorage
      (processAll [(helloWorldSaga, helloSaidEvent (some "tx") "tenant:42")]) (some "tx") =
      .ok [⟨noMoreHelloCommand, some "tenant", some "tx"⟩] := by
    decide
  refine ⟨hResult, ?_⟩
  rintro ⟨commands, hOk, -, hExact⟩
  rw [hResult] at hOk
  have hMem : (⟨noMoreHelloCommand, some "tenant:42", some "tx"⟩ : RollbackCommand) ∈ commands :=
    (hExact _).mpr ⟨⟨some "tx", noMoreHelloCommand, "tenant:42"⟩, by decide, rfl, rfl⟩
  rw [← Except.ok.inj hOk] at hMem
  revert hMem
  decide

end Moirae.SagaManager
