import TokenQuota.Digest

/-! The token bucket as a script that a remote store runs on two keys at once. -/

namespace TokenQuota

/-- The script. Its keys are those of the two cells, and its arguments are the numbers of a
request in their order. -/
def takeScript : String := r#"
local tna = tonumber(redis.call("GET", KEYS[1]))
if not tna then
    tna = 0
end

local size = tonumber(ARGV[3])
local accumulated = tonumber(redis.call("GET", KEYS[2]))
if not accumulated then
    accumulated = size
end

local now = tonumber(ARGV[1])
local nanosBetweenTokens = tonumber(ARGV[2])
local requested = tonumber(ARGV[4])
local maxWaitNanos = tonumber(ARGV[5])
local maxIdleMillis = tonumber(ARGV[6])
local maxDebtNanos = tonumber(ARGV[7])

if now > tna then
    local fresh = math.floor((now - tna) / nanosBetweenTokens)
    accumulated = math.min(size, accumulated + fresh)
    tna = now
end

local waitNanos = tna - now
local used = math.min(accumulated, requested)
local deficit = requested - used

tna = tna + deficit * nanosBetweenTokens
accumulated = accumulated - used

if (tna - now > maxDebtNanos) or (waitNanos > 0 and waitNanos > maxWaitNanos) then
    return -1
end

if maxIdleMillis > 0 then
    redis.call("SET", KEYS[1], tna, "PX", maxIdleMillis)
    redis.call("SET", KEYS[2], math.floor(accumulated), "PX", maxIdleMillis)
else
    redis.call("SET", KEYS[1], tna)
    redis.call("SET", KEYS[2], math.floor(accumulated))
end

return waitNanos
"#

/-- The name by which a store knows the script. -/
def takeScriptHash : String :=
  Digest.contentHash (Bytes.ofString takeScript)

end TokenQuota
