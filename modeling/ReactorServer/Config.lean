import ReactorServer.Bytes

/-!
# The compile-time configuration

The constants of `src/include/Config.h` that the modelled functions read.
-/

set_option autoImplicit false

namespace ReactorServer

/-- Threads of the database pool. -/
def kDbThreads : ℕ := 4

/-- Connections that the MySQL pool opens. -/
def kDbMaxConn : ℕ := 8

/-- Connections that the Redis pool opens. -/
def kRedisMaxConn : ℕ := 8

/-- Longest username a request may carry. -/
def kMaxUsernameLen : ℕ := 64

/-- Longest password a request may carry. -/
def kMaxPasswordLen : ℕ := 128

/-- Time to live of a cached password, in seconds. -/
def kUserCacheTtlSec : ℕ := 300

/-- Time to live of a session, in seconds. -/
def kSessionTtlSec : ℕ := 3600

/-- Length of a session token. -/
def kTokenLen : ℕ := 32

/-- Seconds after which a connection counts as idle, zero for never. -/
def kIdleTimeoutSec : ℕ := 60

/-- Largest header block, zero for no limit. -/
def kMaxHeaderBytes : ℕ := 16 * 1024

/-- Largest request body, zero for no limit. -/
def kMaxBodyBytes : ℕ := 1 * 1024 * 1024

end ReactorServer
