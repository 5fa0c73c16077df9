import ReactorServer.Db.Tasks
import ReactorServer.Lib.Lease
import ReactorServer.Lib.Machine

/-!
# The two connection pools

`RedisPool` and `MysqlPool` with their queues, and the workers that go to them.  To a task a pool
function is a single call; here it is what its body does.  `discardBrokenConn` frees the context,
opens another, which can take as long as a connection attempt takes, and only then touches the queue,
so other workers come in between.

Contexts are numbered in the order in which they are opened, so a freed one is never confused with
one that happens to get its address.  Beside each queue stands the ledger of what is out
(`HandlePool`), which the code does not have.

An exception is possible wherever the code allocates or locks: in `getConn`, when `RedisPool::get`
copies the reply, in the `push` of a queue, in `createConn` when it logs.  Freeing a context, the
destructor of `MysqlGuard` and `sendJson` do not throw.
-/

set_option autoImplicit false

namespace ReactorServer

open Program

/-! ## What the pool functions do -/

/-- The steps of a task, as the pools see them. -/
inductive PoolCall where
  /-- The wait and the `pop` of `RedisPool::getConn` -/
  | redisPop
  /-- The `push` of `RedisPool::releaseConn` and of `discardBrokenConn` -/
  | redisPush (conn : ℕ)
  /-- `redisFree` -/
  | redisFree (conn : ℕ)
  /-- `RedisPool::createConn` -/
  | createConn
  /-- `redisCommand`, and the copy of the reply in `RedisPool::get` -/
  | redisCommand (conn : ℕ) (cmd : RedisCommand)
  /-- The wait and the `pop` of `MysqlPool::getConn` -/
  | mysqlPop
  /-- The `push` of `MysqlPool::releaseConn` -/
  | mysqlPush (conn : ℕ)
  /-- `mysql_query`, and `mysql_store_result` -/
  | mysqlQuery (conn : ℕ) (sql : Bytes)
  | generateToken
  | send (statusCode : ℕ) (body : Bytes)
  deriving DecidableEq, Repr

/-- What a step returns when it does not throw. -/
@[reducible] def PoolCall.Res : PoolCall → Type
  | .redisPop => Option ℕ
  | .createConn => Option ℕ
  | .redisCommand .. => Option RedisReply
  | .mysqlPop => Option ℕ
  | .mysqlQuery .. => QueryResult
  | .generateToken => Bytes
  | .redisPush _ | .redisFree _ | .mysqlPush _ | .send .. => PUnit

/-- A task or a part of one, step by step. -/
abbrev PoolJob (α : Type) := Program PoolCall PoolCall.Res α

/-- Make a step. -/
abbrev act (o : PoolCall) : PoolJob o.Res := Program.perform o

/-- `RedisPool::discardBrokenConn`. -/
def discardBrokenConn (conn : ℕ) : PoolJob PUnit := do
  act (.redisFree conn)
  match ← act .createConn with
  | none => return ⟨⟩
  | some fresh => act (.redisPush fresh)

/-- The steps of a call. -/
def Call.body : (o : Call) → PoolJob o.Res
  | .redisGetConn => act .redisPop
  | .redisCommand conn cmd => act (.redisCommand conn cmd)
  | .redisRelease conn => act (.redisPush conn)
  | .redisDiscard conn => discardBrokenConn conn
  | .mysqlGetConn => act .mysqlPop
  | .mysqlQuery conn sql => act (.mysqlQuery conn sql)
  | .mysqlRelease conn => act (.mysqlPush conn)
  | .generateToken => act .generateToken
  | .send statusCode body => act (.send statusCode body)

/-- What a worker can be asked to do: a task of the server, or one of the operations of `RedisPool`
by itself. -/
inductive Errand where
  | task (t : Task)
  | get (key : Bytes)
  | setex (key : Bytes) (ttl : ℕ) (value : Bytes)
  | del (key : Bytes)
  deriving DecidableEq, Repr

/-- An operation of `RedisPool`. -/
def Errand.isOperation : Errand → Bool
  | .task _ => false
  | _ => true

/-- What the worker then calls. -/
def Errand.work : Errand → Job PUnit
  | .task t => t.work
  | .get key => do
    let _ ← redisGet key
    return ⟨⟩
  | .setex key ttl value => do
    let _ ← redisSetex key ttl value
    return ⟨⟩
  | .del key => do
    let _ ← redisDel key
    return ⟨⟩

/-- And what it does, step by step. -/
def Errand.steps (e : Errand) : PoolJob PUnit := e.work.expand Call.body

/-! ## The pools and the workers -/

/-- The pools, and what every worker still has to do. -/
structure Pools where
  /-- `MysqlPool::pool_` -/
  mysql : HandlePool ℕ ℕ
  /-- `RedisPool::pool_` -/
  redis : HandlePool ℕ ℕ
  /-- The number of the next context. -/
  fresh : ℕ
  /-- The contexts that have been freed. -/
  freed : List ℕ
  /-- The workers that have freed a context and not tried to open another yet. -/
  owing : List ℕ
  running : List (PoolJob PUnit)

/-- How a step comes out. -/
inductive PoolOutcome where
  /-- As it should. -/
  | served
  /-- `wait_for` gives up. -/
  | timeout
  /-- Redis replies, or does not. -/
  | reply (r : Option RedisReply)
  /-- MySQL answers. -/
  | result (r : QueryResult)
  | token (t : Bytes)
  /-- A connection attempt succeeds or fails. -/
  | connected (ok : Bool)
  | throws
  deriving DecidableEq, Repr

/-- The constructors of the pools: `mysqlOk` and `redisOk` say which of the attempts succeed. -/
def Pools.init (workers : ℕ) (mysqlOk redisOk : ℕ → Bool) : Pools where
  mysql := { idle := (List.range kDbMaxConn).filter mysqlOk, leased := [] }
  redis := { idle := (List.range kRedisMaxConn).filter redisOk, leased := [] }
  fresh := kRedisMaxConn
  freed := []
  owing := []
  running := List.replicate workers (.ret ⟨⟩)

/-- A move of a worker. -/
inductive PoolMove where
  /-- Worker `i` is through with what it had to do, and is given something else. -/
  | start (i : ℕ) (e : Errand)
  /-- Worker `i` makes its next step. -/
  | call (i : ℕ) (out : PoolOutcome)
  deriving DecidableEq, Repr

namespace Pools

/-- **A step of worker `i` and its outcome**: the pools afterwards, and what the worker gets, `none`
for an exception.  A wait times out only if the queue is empty when it does. -/
def exec (s : Pools) (i : ℕ) : (o : PoolCall) → PoolOutcome → Option (Pools × Option o.Res)
  | .redisPop, .served => (s.redis.take i).map fun (conn, p) ↦ ({ s with redis := p }, some (some conn))
  | .redisPop, .timeout => if s.redis.idle = [] then some (s, some none) else none
  | .redisPop, .throws => some (s, none)
  | .redisPush conn, .served => some ({ s with redis := s.redis.put i conn }, some ⟨⟩)
  | .redisPush _, .throws => some (s, none)
  | .redisFree conn, .served =>
    some ({ s with redis := s.redis.drop i conn, freed := conn :: s.freed, owing := i :: s.owing },
      some ⟨⟩)
  | .createConn, .connected true =>
    some ({ s with redis := s.redis.lend i s.fresh, fresh := s.fresh + 1, owing := s.owing.erase i },
      some (some s.fresh))
  | .createConn, .connected false => some ({ s with owing := s.owing.erase i }, some none)
  | .createConn, .throws => some ({ s with owing := s.owing.erase i }, none)
  | .redisCommand .., .reply r => some (s, some r)
  | .redisCommand _ (.get _), .throws => some (s, none)
  | .mysqlPop, .served => (s.mysql.take i).map fun (conn, p) ↦ ({ s with mysql := p }, some (some conn))
  | .mysqlPop, .timeout => if s.mysql.idle = [] then some (s, some none) else none
  | .mysqlPop, .throws => some (s, none)
  | .mysqlPush conn, .served => some ({ s with mysql := s.mysql.put i conn }, some ⟨⟩)
  | .mysqlQuery .., .result r => some (s, some r)
  | .mysqlQuery .., .throws => some (s, none)
  | .generateToken, .token t => some (s, some t)
  | .generateToken, .throws => some (s, none)
  | .send .., .served => some (s, some ⟨⟩)
  | _, _ => none

/-- A move, if it is possible. -/
def fire (s : Pools) : PoolMove → Option Pools
  | .start i e =>
    match s.running[i]? with
    | none => none
    | some p => if p.isDone then some { s with running := s.running.set i e.steps } else none
  | .call i out =>
    match s.running[i]? with
    | some (.call o next) =>
      (s.exec i o out).map fun (s', r) ↦ { s' with running := s.running.set i (next r) }
    | _ => none

/-- A move; one that is not possible leaves everything alone. -/
def step (s : Pools) (m : PoolMove) : Pools := (s.fire m).getD s

/-- A run. -/
def run (s : Pools) (ms : List PoolMove) : Pools := ms.foldl step s

end Pools

end ReactorServer
