import AppServer.Demo.Directory
import AppServer.Server.Basic

/-!
# The demo

A directory of users as a resource, a greeting, a health check over the directory and a task that
empties it.
-/

namespace AppServer.Demo

open AppServer.Data AppServer.Http AppServer.Pipeline AppServer.Resource

/-- The name in the path of a request. -/
def nameOf (ctx : Context) : String :=
  (ctx.param? "name").getD ""

def noSuchUser (name : String) : DomainError :=
  .api (.notFound ("No user named " ++ name))

def getUser (ctx : Context) : Act Directory Outcome := do
  match (← Act.state).get? (nameOf ctx) with
  | some u => return .ok (toValue u)
  | none => return .error (noSuchUser (nameOf ctx))

/-- Stores a user under the name in the path. -/
def postUser (ctx : Context) (body : NewUser) : Act Directory Outcome := do
  if body.email.toList.contains '@' then
    let user : User := ⟨nameOf ctx, body.email⟩
    Act.modifyState (·.put user)
    return .ok (toValue user)
  else return .error (.api (.badRequest "email must contain '@'"))

def deleteUser (ctx : Context) : Act Directory Outcome := do
  let (removed, rest) := (← Act.state).remove (nameOf ctx)
  Act.setState rest
  match removed with
  | some _ => return .ok (toValue (Removed.mk (nameOf ctx)))
  | none => return .error (noSuchUser (nameOf ctx))

def users : AppServer.Resource Directory where
  path := "/users/:name"
  name := "UserResource"
  get := some (.withoutBody .get getUser)
  post := some (.withBody .post postUser)
  put := none
  patch := none
  delete := some (.withoutBody .delete deleteUser)

/-- Empties the directory and tells how many users there were. -/
def clearUsers : Service Directory :=
  .deferred fun _ => do
    let (count, rest) := (← Act.state).clear
    Act.setState rest
    return .text ("removed " ++ toString count ++ " users\n")

/-- The demo with a configuration. -/
def blueprint (config : Config) (p : Host) : Blueprint Directory :=
  (Blueprint.new config p)
    |>.resource users
    |>.route "GET" "/" (.deferred fun _ => return .text "Melon REST demo\n")
    |>.healthCheck "directory" (return .healthy)
    |>.task "clear-users" clearUsers

end AppServer.Demo
