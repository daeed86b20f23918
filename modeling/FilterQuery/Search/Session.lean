import FilterQuery.Search.Client

/-! Runs of search operations against a backend in memory, which answers as it is told to and keeps
a record of its calls. -/

namespace FilterQuery.Search

open Expression

inductive Call where
  | search (index : String) (body : Json)
  | probe (index : String)

structure Backend where
  reply : Except BackendError Response := .ok ⟨.object []⟩
  existence : Except BackendError Bool := .ok true
  calls : List Call := []

namespace Backend

def record (call : Call) (b : Backend) : Backend := { b with calls := b.calls ++ [call] }

def client : Client (StateM Backend) where
  search index body := do
    modify (record (.search index body))
    return (← get).reply
  indexExists index := do
    modify (record (.probe index))
    return (← get).existence

@[simp] theorem run_client_search (index : String) (body : Json) (b : Backend) :
    (client.search index body).run b = (b.reply, b.record (.search index body)) := rfl

@[simp] theorem run_client_indexExists (index : String) (b : Backend) :
    (client.indexExists index).run b = (b.existence, b.record (.probe index)) := rfl

end Backend

inductive Operation where
  | setReply (reply : Except BackendError Response)
  | setExistence (existence : Except BackendError Bool)
  | clone
  | verifyIndex (index : String)
  | parse (c : Criteria)
  | explain (c : Criteria)
  | buildRequest (c : Criteria) (filter : Option Node)
  | effectiveFilter (c : Criteria) (s : Scope)
  | search (index : String) (c : Criteria) (mapper : Document → Option Json)
  | searchParsed (index : String) (c : Criteria) (filter : Option Node)
      (mapper : Document → Option Json)
  | searchScoped (index : String) (c : Criteria) (s : Scope) (mapper : Document → Option Json)

inductive Outcome where
  | done
  | existence (found : Bool)
  | filter (result : Except SearchError (Option Node))
  | request (result : Except SearchError Query.Request)
  | page (result : Except SearchError (Page Json))

structure Handles where
  engine : Engine (StateM Backend) := ⟨Backend.client⟩
  service : Service (StateM Backend) := ⟨⟨Backend.client⟩⟩

namespace Operation

def runOn (h : Handles) : Operation → StateM Backend Outcome
  | .setReply reply => do
    modify ({ · with reply })
    return .done
  | .setExistence existence => do
    modify ({ · with existence })
    return .done
  | .clone => return .done
  | .verifyIndex index => return .existence (← h.engine.client.verifyIndex index)
  | .parse c => return .filter (callerFilter c)
  | .explain c => return .request (Search.explain c)
  | .buildRequest c filter => return .request (Search.buildRequest c filter)
  | .effectiveFilter c s => return .filter (Search.effectiveFilter c s)
  | .search index c mapper => return .page (← h.engine.client.searchPage index c mapper)
  | .searchParsed index c filter mapper =>
    return .page (← h.engine.client.searchParsed index c filter mapper)
  | .searchScoped index c s mapper =>
    return .page (← h.service.engine.client.searchScoped index c s mapper)

/-- The handles that the next operation is run on. -/
def handles (h : Handles) : Operation → Handles
  | .clone => ⟨h.engine.clone, h.service.clone⟩
  | _ => h

def run : Operation → StateM Backend Outcome := runOn {}

end Operation

/-- What operations come to one after another, each on the handles that the one before has left. -/
def sessionOn : Handles → List Operation → StateM Backend (List Outcome)
  | _, [] => return []
  | h, op :: ops => do
    let outcome ← op.runOn h
    let outcomes ← sessionOn (op.handles h) ops
    return outcome :: outcomes

end FilterQuery.Search
